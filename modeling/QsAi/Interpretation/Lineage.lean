import QsAi.Interpretation.OutputFacts

/-! The hierarchy of the dimensions that an insight combines. The check follows
the links between the facts of the input, as far as the selection kept them. -/
namespace QsAi

open Guarded PyJson Ancestry Relation ReportInput

namespace ReportOutput

/-- Every dimension names a parent or none. -/
def Facts.Linked (facts : Facts) : Prop :=
  ∀ d ∈ facts.dimensions, ∃ above : Option Text, d.2.item "parent_ref" = .ok (ReportInput.optional above)

/-- More rounds end the loop the same way. -/
theorem Facts.walk_lineage (facts : Facts) (refs : List Text) (ref : Text) {rounds : Nat}
    (hRounds : facts.dimensions.length + 1 ≤ rounds) : facts.walk refs rounds ref = some (facts.lineage refs ref) :=
  climb_mono (Option.some_get _).symm hRounds

/-- The loop comes to the top of the hierarchy exactly when nothing else that is
cited lies above, and no cycle does. -/
theorem Facts.lineage_top (facts : Facts) (refs : List Text) (ref : Text) : facts.lineage refs ref = .top ↔
    (∀ other ∈ refs, other ≠ ref → ¬ Ancestor facts.parentOf ref other) ∧ ¬ RunsIntoCycle facts.parentOf ref := by
  rw [← climb_top_iff (facts.walk_ends refs ref (Nat.le_refl _))]
  have hWalk := facts.walk_lineage refs ref (Nat.le_refl _)
  unfold walk at hWalk
  rw [hWalk, Option.some.injEq]

/-- A reference to a linked dimension is refused for its lineage alone. -/
theorem checkLineage_ok {facts : Facts} (hLinked : facts.Linked) {refs : List Text} {ref : Text}
    (hKnown : ref ∈ facts.dimensions.map (·.1)) : checkLineage facts refs ref = .ok () ↔ facts.lineage refs ref = .top := by
  obtain ⟨d, hFound⟩ : ∃ d, facts.dimensions.lookup ref = some d := by
    cases hLookup : facts.dimensions.lookup ref with
    | some d => exact ⟨d, rfl⟩
    | none =>
        obtain ⟨entry, hMem, hRef⟩ := List.mem_map.mp hKnown
        have hOther := List.lookup_eq_none_iff.mp hLookup entry hMem
        rw [hRef, bne_self_eq_false] at hOther
        cases hOther
  obtain ⟨above, hAbove⟩ := hLinked _ (mem_of_lookup hFound)
  have hDemand : native (demand (facts.dimensions.lookup ref) .key) = (.ok d : OutputCheck Value) := by
    rw [native_ok, demand_ok, hFound]
  have hItem : native (d.item "parent_ref") = (.ok (ReportInput.optional above) : OutputCheck Value) := native_ok.mpr hAbove
  rw [checkLineage, hDemand, ok_bind, hItem, ok_bind]
  cases facts.lineage refs ref with
  | top => simp
  | seen => simp [invalidOutput]
  | met => simp [invalidOutput]

/-- Where parents and children must not be combined, the loop over the parents
of a cited dimension ends after at most as many rounds as there are dimensions
and one more, and the insight passes exactly when no cited dimension lies above
another one and no chain of parents runs into a cycle. -/
theorem lineage_check_exact {policy : RenderPolicy} {facts : Facts} {insight : Insight}
    (hForbidden : policy.allowParentChildInSameInsight = false) (hLinked : facts.Linked)
    (hKnown : ∀ ref ∈ insight.dimensionRefs, ref ∈ facts.dimensions.map (·.1)) :
    (∀ ref ∈ insight.dimensionRefs, ∃ ending, ∀ rounds, facts.dimensions.length + 1 ≤ rounds →
      facts.walk insight.dimensionRefs rounds ref = some ending) ∧
    (checkInsight policy facts insight = .ok () ↔ insight.kind ∈ policy.allowedInsightKinds ∧
      (policy.minDimensionRefs ≤ insight.dimensionRefs.length ∧ insight.dimensionRefs.length ≤ policy.maxDimensionRefs) ∧
      ∀ ref ∈ insight.dimensionRefs, (∀ other ∈ insight.dimensionRefs, other ≠ ref → ¬ Ancestor facts.parentOf ref other) ∧
        ¬ RunsIntoCycle facts.parentOf ref) := by
  refine ⟨fun ref _ => ⟨facts.lineage insight.dimensionRefs ref, fun rounds hRounds =>
    facts.walk_lineage _ ref hRounds⟩, ?_⟩
  have hLoop : insight.dimensionRefs.forM (checkLineage facts insight.dimensionRefs) = .ok () ↔
      ∀ ref ∈ insight.dimensionRefs, (∀ other ∈ insight.dimensionRefs, other ≠ ref → ¬ Ancestor facts.parentOf ref other) ∧
        ¬ RunsIntoCycle facts.parentOf ref := by
    rw [forM_ok]
    exact forall₂_congr fun ref hMem => (checkLineage_ok hLinked (hKnown ref hMem)).trans (facts.lineage_top _ ref)
  rw [← hLoop, checkInsight, hForbidden]
  split
  · rename_i hKind
    simp [invalidOutput, hKind]
  split
  · rename_i hKind hCount
    simp only [invalidOutput, refuse_ok, false_iff]
    exact fun h => hCount h.2.1
  · rename_i hKind hCount
    exact ⟨fun h => ⟨not_not.mp hKind, not_not.mp hCount, h⟩, fun h => h.2.2⟩

/-- A dimension of a payload with its parent. -/
def linkedDimension (ref : String) (above : Option String) : Text × Value :=
  (text ref, ReportInput.record [("ref", .string (text ref)), ("parent_ref", ReportInput.optional (above.map text))])

theorem linked_of_map {links : List (String × Option String)} {suggestions : List Text} {modelResult : Value} :
    (⟨links.map fun link => linkedDimension link.1 link.2, suggestions, modelResult⟩ : Facts).Linked := by
  intro d hMem
  obtain ⟨link, -, rfl⟩ := List.mem_map.mp hMem
  exact ⟨link.2.map text, by simp [linkedDimension, ReportInput.record, Value.item, List.lookup_cons, text]⟩

/-- One dimension with a parent that is not there, and one that is its own parent. -/
def knotFacts : Facts :=
  ⟨[("dimension:A", some "dimension:P"), ("dimension:B", some "dimension:B")].map fun link => linkedDimension link.1 link.2,
    [], .null⟩

def knotInsight : Insight :=
  ⟨text "combined_strength", [⟨.dimension, text "dimension:A"⟩, ⟨.dimension, text "dimension:B"⟩]⟩

def knotPolicy : RenderPolicy where
  allowedInsightKinds := [text "combined_strength"]
  insightMinItems := 1
  insightMaxItems := 1
  minDimensionRefs := 2
  maxDimensionRefs := 2
  allowParentChildInSameInsight := false
  allowedSuggestionOrigins := [text "generated_low_risk"]
  allowedSuggestionCategories := [text "daily"]
  suggestionMinItems := 1
  suggestionMaxItems := 1
  maxActionsPerItem := 1
  maxOutputCharacters := 6000

/-- The insight does not pass, since one chain of parents runs into a cycle. -/
theorem knot_refused : (∀ ref ∈ knotInsight.dimensionRefs, ∃ ending, ∀ rounds, 3 ≤ rounds →
      knotFacts.walk knotInsight.dimensionRefs rounds ref = some ending) ∧
    ¬ checkInsight knotPolicy knotFacts knotInsight = .ok () := by
  have hLinked : knotFacts.Linked := linked_of_map
  have hKnown : ∀ ref ∈ knotInsight.dimensionRefs, ref ∈ knotFacts.dimensions.map (·.1) := by decide
  have hForbidden : knotPolicy.allowParentChildInSameInsight = false := rfl
  have hExact : (∀ ref ∈ knotInsight.dimensionRefs, ∃ ending, ∀ rounds, 3 ≤ rounds →
      knotFacts.walk knotInsight.dimensionRefs rounds ref = some ending) ∧
      (checkInsight knotPolicy knotFacts knotInsight = .ok () ↔ _) :=
    lineage_check_exact hForbidden hLinked hKnown
  refine ⟨hExact.1, fun h => ?_⟩
  have hCycle := ((hExact.2.mp h).2.2 (text "dimension:B") (by decide)).2
  have hSelf : Above knotFacts.parentOf (text "dimension:B") (text "dimension:B") := by
    unfold Above
    decide
  exact hCycle ⟨_, .refl, .single hSelf⟩

/-! Links of the report. -/

/-- The parent that a dimension of the report names. -/
def parentCode (d : Value) : Option Text :=
  match d.item "parent_code" with
  | .ok (.string above) => some above
  | _ => none

/-- The parent of the dimension with this code. -/
def codeParent (listed : List Value) (code : Text) : Option Text :=
  (listed.find? fun d => codeOf d = some code).bind parentCode

/-- The parent when it is a dimension that the profile selects. -/
def keptParent (policy : InputPolicy) (listed : List Value) (code : Text) : Option Text :=
  (codeParent listed code).filter fun above => InputPolicy.selects policy above && listed.any fun d => codeOf d = some above

/-- The insight refers to the dimension with this code. -/
def Insight.Cites (insight : Insight) (code : Text) : Prop :=
  ∃ ref, dimensionRef code = some ref ∧ ref ∈ insight.dimensionRefs

theorem codeOf_coded {listed : List Value} {coded : List (Text × Value)} (h : Coded listed coded) {d : Text × Value}
    (hMem : d ∈ coded) : codeOf d.2 = some d.1 := by
  obtain ⟨hCode, hSome⟩ := h.codes d hMem
  rw [codeOf, hCode]
  exact if_neg hSome

/-- The dimension with a code is the one that carries it. -/
theorem find_coded {listed : List Value} {coded : List (Text × Value)} (h : Coded listed coded) {d : Text × Value}
    (hMem : d ∈ coded) : listed.find? (fun entry => codeOf entry = some d.1) = some d.2 := by
  rw [← h.covers]
  have hDistinct := h.distinct
  have hCodes : ∀ entry ∈ coded, codeOf entry.2 = some entry.1 := fun entry hEntry => codeOf_coded h hEntry
  clear h
  induction coded with
  | nil => cases hMem
  | cons entry coded ih =>
      rw [List.map_cons, List.nodup_cons] at hDistinct
      rw [List.map_cons, List.find?_cons, hCodes entry List.mem_cons_self]
      rcases List.mem_cons.mp hMem with rfl | hMem
      · simp
      · have hOther : entry.1 ≠ d.1 := fun hSame => hDistinct.1 (hSame ▸ List.mem_map_of_mem hMem)
        rw [decide_eq_false (by simpa using hOther)]
        exact ih hMem hDistinct.2 fun later hLater => hCodes later (List.mem_cons_of_mem _ hLater)

/-- A kept parent of a fact is a fact, and the link between them stays. -/
theorem parent_of_kept {snapshot : Value} {policy : InputPolicy} {facts : ScaleFacts} {listed : List Value}
    (h : scaleFacts snapshot policy = .ok facts)
    (hListed : (snapshot.item "dimensions").bind Value.elements = .ok listed) {d : ProjectedDimension}
    (hMem : d ∈ facts.dimensions) {above : Text} (hKept : keptParent policy listed d.code = some above) :
    ∃ fact ∈ facts.dimensions, fact.code = above ∧ d.parentRef = some fact.ref := by
  obtain ⟨reported, found, coded, selected, collected, projected, hParts⟩ := scaleFacts_parts h
  rw [hParts.dimensionsRead] at hListed
  cases hListed
  have hPairs := (mapM_ok _ _ _).mp hParts.projection
  have hPerm := List.perm_insertionSort (fun a b => before a b = true) projected
  obtain ⟨source, hSource, hStep⟩ := beside_right hPairs (hPerm.mem_iff.mp (hParts.dimensions ▸ hMem))
  obtain ⟨-, hCode, -, parentValue, hParentValue, hParentRef⟩ := project_ok hStep
  have hSourceCoded := (hParts.selection.source source hSource).1
  -- The report's own link of the dimension is the one its projection looked up.
  obtain ⟨hLink, hKeep⟩ := Option.filter_eq_some_iff.mp hKept
  rw [codeParent, hCode, find_coded hParts.codes hSourceCoded, Option.bind_some, parentCode, hParentValue] at hLink
  rw [Bool.and_eq_true, List.any_eq_true] at hKeep
  obtain ⟨hSelects, entry, hEntry, hEntryCode⟩ := hKeep
  cases parentValue with
  | string named =>
      cases hLink
      rw [← hParts.codes.covers] at hEntry
      obtain ⟨pair, hPair, rfl⟩ := List.mem_map.mp hEntry
      rw [decide_eq_true_eq, codeOf_coded hParts.codes hPair, Option.some.injEq] at hEntryCode
      obtain ⟨parent, hParent, hParentCode, -⟩ := hParts.selection.complete pair hPair (hEntryCode ▸ hSelects)
      obtain ⟨fact, hFact, hFactStep⟩ := beside_right hPairs.flip hParent
      obtain ⟨hFactRef, hFactCode, -⟩ := project_ok hFactStep
      have hKeys : ((selected.map fun d => (d.1, d.2.1)).map (·.1)).Nodup := by
        rw [List.map_map]
        exact hParts.selection.codes
      have hLookup : (selected.map fun d => (d.1, d.2.1)).lookup above = some parent.2.1 := by
        rw [← hEntryCode, ← hParentCode]
        exact lookup_of_mem hKeys (List.mem_map_of_mem (f := fun d : Text × Text × Value => (d.1, d.2.1)) hParent)
      refine ⟨fact, hParts.dimensions ▸ hPerm.mem_iff.mpr hFact, by rw [hFactCode, hParentCode, hEntryCode], ?_⟩
      rw [hParentRef, hFactRef]
      exact hLookup
  | _ => cases hLink

/-- The gates follow the link that a fact has kept. -/
theorem parentOf_fact {facts : ScaleFacts} (hDistinct : (facts.dimensions.map (·.ref)).Nodup) {d : ProjectedDimension}
    (hMem : d ∈ facts.dimensions) : (factsOf facts).parentOf d.ref = d.parentRef := by
  have hKeys : ((facts.dimensions.map fun d => (d.ref, d.value)).map (·.1)).Nodup := by
    rw [List.map_map]
    exact hDistinct
  have hLookup : (factsOf facts).dimensions.lookup d.ref = some d.value :=
    lookup_of_mem hKeys (List.mem_map_of_mem (f := fun d : ProjectedDimension => (d.ref, d.value)) hMem)
  have hItem : d.value.item "parent_ref" = .ok (optional d.parentRef) := by
    simp [ProjectedDimension.value, item_record_cons]
  rw [Facts.parentOf, hLookup]
  simp only [hItem]
  cases d.parentRef <;> rfl

/-- Ancestors along kept links are ancestors among the facts. -/
theorem ancestor_of_kept {snapshot : Value} {policy : InputPolicy} {facts : ScaleFacts} {listed : List Value}
    (h : scaleFacts snapshot policy = .ok facts)
    (hListed : (snapshot.item "dimensions").bind Value.elements = .ok listed)
    (hDistinct : (facts.dimensions.map (·.ref)).Nodup) {d : ProjectedDimension} (hMem : d ∈ facts.dimensions) {above : Text}
    (hAncestor : Ancestor (keptParent policy listed) d.code above) :
    ∃ fact ∈ facts.dimensions, fact.code = above ∧ Ancestor (factsOf facts).parentOf d.ref fact.ref := by
  induction hAncestor with
  | single hLink =>
      obtain ⟨fact, hFact, hCode, hParent⟩ := parent_of_kept h hListed hMem hLink
      exact ⟨fact, hFact, hCode, .single ((parentOf_fact hDistinct hMem).trans hParent)⟩
  | tail _ hLink ih =>
      obtain ⟨fact, hFact, rfl, hBelow⟩ := ih
      obtain ⟨higher, hHigher, hCode, hParent⟩ := parent_of_kept h hListed hFact hLink
      exact ⟨higher, hHigher, hCode, hBelow.tail ((parentOf_fact hDistinct hFact).trans hParent)⟩

/-! Accepted outputs. -/

/-- Every insight of an accepted output was checked against the facts of the payload. -/
theorem accepted_insights {limits : Limits} {policy : RenderPolicy} {ofType : Bool} {providerPayload raw : Text}
    {output : DeterministicOutput} (h : validateOutput limits policy ofType providerPayload raw = .ok output) :
    ∃ content document payload facts, parse limits.readDepth raw = .ok (content, document) ∧
      loads overwrite (some limits.readDepth) providerPayload = .ok payload ∧ readFacts payload = .ok facts ∧
      ∀ insight ∈ document.integratedInsights, checkInsight policy facts insight = .ok () := by
  rw [validateOutput] at h
  split at h
  · simp [invalidOutput] at h
  simp only [bind_ok, native_ok, mapError_ok] at h
  obtain ⟨⟨content, document⟩, hParse, payload, hPayload, facts, hFacts, _, -, _, -, h⟩ := h
  refine ⟨content, document, payload, facts, hParse, hPayload, hFacts, ?_⟩
  split at h
  · simp [invalidOutput] at h
  rw [bind_ok] at h
  obtain ⟨_, hInsights, -⟩ := h
  exact (forM_ok _ _ _).mp hInsights

theorem lineage_of_checked {facts : Facts} {refs : List Text} {ref : Text} (h : checkLineage facts refs ref = .ok ()) :
    facts.lineage refs ref = .top ∧ ref ∈ facts.dimensions.map (·.1) := by
  simp only [checkLineage, bind_ok, native_ok, demand_ok] at h
  obtain ⟨d, hFound, _, -, h⟩ := h
  refine ⟨?_, List.mem_map_of_mem (f := Prod.fst) (mem_of_lookup hFound)⟩
  split at h
  · assumption
  · simp [invalidOutput] at h
  · simp [invalidOutput] at h

/-- No insight of an accepted output combines a dimension with an ancestor that
is reached over selected dimensions. -/
theorem kept_lineage_not_combined {library : Library} {snapshot : Value} {policy : InputPolicy} {locale : Text}
    {focus : List Text} {input : AssembledInput} {limits : Limits} {render : RenderPolicy} {raw : Text}
    {output : DeterministicOutput} {content : Value} {document : Document} {listed : List Value} {insight : Insight}
    {a b : Text} (hSnapshot : snapshot.WellFormed)
    (hInput : assembleScale library snapshot policy locale focus = .ok input)
    (hListed : (snapshot.item "dimensions").bind Value.elements = .ok listed)
    (hForbidden : render.allowParentChildInSameInsight = false)
    (hAccepted : validateOutput limits render false input.providerPayload raw = .ok output)
    (hParse : parse limits.readDepth raw = .ok (content, document)) (hInsight : insight ∈ document.integratedInsights)
    (ha : insight.Cites a) (hb : insight.Cites b) (hOther : a ≠ b) : ¬ Ancestor (keptParent policy listed) a b := by
  intro hAncestor
  obtain ⟨_, _, payload, read, hParsed, hPayload, hRead, hChecked⟩ := accepted_insights hAccepted
  rw [hParse] at hParsed
  cases hParsed
  obtain ⟨facts, hFacts, rfl⟩ := loads_scalePayload hSnapshot hInput hPayload
  obtain ⟨_, _, -, -, hClosed⟩ := scaleFacts_closed hFacts
  rw [readFacts_scalePayload hClosed.dimensions] at hRead
  cases hRead
  have hLineages : ∀ ref ∈ insight.dimensionRefs, (factsOf facts).lineage insight.dimensionRefs ref = .top ∧
      ref ∈ (factsOf facts).dimensions.map (·.1) := by
    have hInsightChecked := hChecked insight hInsight
    rw [checkInsight] at hInsightChecked
    split at hInsightChecked
    · simp [invalidOutput] at hInsightChecked
    split at hInsightChecked
    · simp [invalidOutput] at hInsightChecked
    rw [hForbidden, if_neg Bool.false_ne_true, forM_ok] at hInsightChecked
    exact fun ref hMem => lineage_of_checked (hInsightChecked ref hMem)
  obtain ⟨ref, hRef, hCited⟩ := ha
  obtain ⟨other, hOtherRef, hOtherCited⟩ := hb
  obtain ⟨hTop, hKnown⟩ := hLineages ref hCited
  rw [factsOf, List.map_map] at hKnown
  obtain ⟨d, hd, hSame⟩ := List.mem_map.mp hKnown
  have hCode : d.code = a := dimensionRef_injective (hClosed.named d hd) (by rw [hRef, ← hSame]; rfl)
  obtain ⟨fact, hFact, hFactCode, hAbove⟩ := ancestor_of_kept hFacts hListed hClosed.dimensions hd (hCode ▸ hAncestor)
  have hFactRef : fact.ref = other := by
    have hNamed := hClosed.named fact hFact
    rw [hFactCode, hOtherRef] at hNamed
    exact (Option.some.inj hNamed).symm
  have hDifferent : other ≠ ref := by
    rintro rfl
    exact hOther (dimensionRef_injective hRef hOtherRef)
  refine ((Facts.lineage_top _ _ _).mp hTop).1 other hOtherCited hDifferent ?_
  rw [← hFactRef, ← show d.ref = ref from hSame]
  exact hAbove

/-! A chain whose middle is excluded. -/

/-- An evidence reference as an output spells it. -/
def citation (kind ref : String) : Value := record [("kind", .string (text kind)), ("ref", .string (text ref))]

/-- An output with one insight on the two ends of the chain. -/
def chainContent : Value :=
  record [("schema_version", .string (text "ai-explanation-output/v1")), ("summary", .string (text "s")),
    ("integrated_insights", .array [record [("kind", .string (text "combined_strength")), ("title", .string (text "t")),
      ("content", .string (text "c")), ("why_it_matters", .string (text "w")),
      ("evidence_refs", .array [citation "dimension" "dimension:A", citation "dimension" "dimension:B"])]]),
    ("suggestions", .array [record [("origin", .string (text "generated_low_risk")), ("category", .string (text "daily")),
      ("title", .string (text "t")), ("goal", .string (text "g")), ("actions", .array [.string (text "a")]),
      ("rationale", .string (text "r")), ("evidence_refs", .array [citation "overall_result" "overall_result"]),
      ("source_suggestion_refs", .array []), ("caution", .string [])]]),
    ("limitations", .array [.string (text "l")])]

def chainLimits : Limits := ⟨100, 100⟩

/-- The output as a model wrote it. -/
def chainRaw : Text := valueText compact chainContent

/-- What the gates say to it. -/
def chainOutput : OutputCheck DeterministicOutput :=
  match chainInput with
  | .ok input => validateOutput chainLimits knotPolicy false input.providerPayload chainRaw
  | .error _ => invalidOutput "not_assembled"

theorem chain_accepted : chainOutput.toOption.isSome = true := by decide +kernel

/-- The dimensions of each insight that is read from an output. -/
def combinations (result : OutputCheck (Value × Document)) : Option (List (List Text)) :=
  result.toOption.map fun found => found.2.integratedInsights.map (·.dimensionRefs)

theorem chain_combinations : combinations (parse chainLimits.readDepth chainRaw) =
    some [[text "dimension:A", text "dimension:B"]] := by decide +kernel

theorem chain_wellFormed : chainSnapshot.WellFormed := by
  simp [chainSnapshot, chainDimension, wellFormed_record, Value.WellFormed, ItemsWellFormed]

/-- The dimensions of the report. -/
def chainListed : List Value := [chainDimension "A" "P" "Walk" 1, chainDimension "P" "B" "" 2, chainDimension "B" "" "" 3]

theorem chain_listed : (chainSnapshot.item "dimensions").bind Value.elements = .ok chainListed := by
  simp [chainSnapshot, item_record_cons, Except.bind, Value.elements, chainListed]

/-- The output is accepted, and its insight cites both ends of the chain. -/
theorem chain_run : ∃ input output content document insight,
    assembleScale chainLibrary chainSnapshot chainPolicy (text "zh-CN") [] = .ok input ∧
    validateOutput chainLimits knotPolicy false input.providerPayload chainRaw = .ok output ∧
    parse chainLimits.readDepth chainRaw = .ok (content, document) ∧ insight ∈ document.integratedInsights ∧
    Insight.Cites insight (text "A") ∧ Insight.Cites insight (text "B") := by
  obtain ⟨input, hInput⟩ := chain_assembled
  obtain ⟨output, hOutput⟩ := Option.isSome_iff_exists.mp chain_accepted
  rw [toOption_some, chainOutput, hInput] at hOutput
  obtain ⟨content, document, _, _, hParse, -⟩ := accepted_insights hOutput
  have hInsights : document.integratedInsights.map (·.dimensionRefs) = [[text "dimension:A", text "dimension:B"]] := by
    have hCombinations := chain_combinations
    rw [hParse] at hCombinations
    exact Option.some.inj hCombinations
  have hListed : [text "dimension:A", text "dimension:B"] ∈ document.integratedInsights.map (·.dimensionRefs) := by
    rw [hInsights]
    exact List.mem_singleton_self _
  obtain ⟨insight, hMem, hRefs⟩ := List.mem_map.mp hListed
  refine ⟨input, output, content, document, insight, hInput, hOutput, hParse, hMem, ?_, ?_⟩
  · exact ⟨text "dimension:A", by decide, by rw [hRefs]; exact List.mem_cons_self⟩
  · exact ⟨text "dimension:B", by decide, by rw [hRefs]; exact List.mem_cons_of_mem _ List.mem_cons_self⟩

/-- Only the selection is followed: the ends of the chain are combined, though
one is an ancestor of the other in the report. -/
theorem excluded_ancestor_combined : ¬ ∀ (library : Library) (snapshot : Value) (policy : InputPolicy) (locale : Text)
    (focus : List Text) (input : AssembledInput) (limits : Limits) (render : RenderPolicy) (raw : Text)
    (output : DeterministicOutput) (content : Value) (document : Document) (listed : List Value) (insight : Insight)
    (a b : Text), snapshot.WellFormed → assembleScale library snapshot policy locale focus = .ok input →
    (snapshot.item "dimensions").bind Value.elements = .ok listed → render.allowParentChildInSameInsight = false →
    validateOutput limits render false input.providerPayload raw = .ok output →
    parse limits.readDepth raw = .ok (content, document) → insight ∈ document.integratedInsights →
    insight.Cites a → insight.Cites b → a ≠ b → ¬ Ancestor (codeParent listed) a b := by
  intro h
  obtain ⟨input, output, content, document, insight, hInput, hOutput, hParse, hMem, ha, hb⟩ := chain_run
  refine h _ _ _ _ _ _ _ knotPolicy _ _ _ _ _ _ _ _ chain_wellFormed hInput chain_listed rfl hOutput hParse hMem ha hb
    (by decide) ?_
  have hMiddle : Above (codeParent chainListed) (text "A") (text "P") := by
    unfold Above
    decide
  have hTop : Above (codeParent chainListed) (text "P") (text "B") := by
    unfold Above
    decide
  exact (TransGen.single hMiddle).tail hTop

/-- Along the selected dimensions nothing lies above the end of the chain. -/
theorem kept_lineage_not_combined_chain : ¬ Ancestor (keptParent chainPolicy chainListed) (text "A") (text "B") := by
  obtain ⟨input, output, content, document, insight, hInput, hOutput, hParse, hMem, ha, hb⟩ := chain_run
  exact kept_lineage_not_combined chain_wellFormed hInput chain_listed rfl hOutput hParse hMem ha hb (by decide)

end ReportOutput

end QsAi
