import QsAi.Interpretation.Input

/-! The facts of an assembled report refer only to each other. References are
pairwise different, a parent is a fact or nothing, and a suggestion is cited by
the one dimension it names. -/
namespace QsAi

open Guarded PyJson PercentEncoding

namespace ReportInput

/-! Lists in step and dictionaries. -/

/-- Whatever is in the second list stands beside something in the first. -/
theorem beside_right {α β : Type} {R : α → β → Prop} {first : List α} {second : List β} (h : List.Forall₂ R first second)
    {b : β} (hMem : b ∈ second) : ∃ a ∈ first, R a b := by
  induction h with
  | nil => cases hMem
  | cons hHead _ ih =>
      rcases List.mem_cons.mp hMem with rfl | hMem
      · exact ⟨_, List.mem_cons_self, hHead⟩
      · obtain ⟨a, ha, hR⟩ := ih hMem
        exact ⟨a, List.mem_cons_of_mem _ ha, hR⟩

/-- What agrees beside each other gives the same list. -/
theorem beside_map {α β γ : Type} {R : α → β → Prop} {first : List α} {second : List β} (h : List.Forall₂ R first second)
    {f : α → γ} {g : β → γ} (hSame : ∀ a b, R a b → f a = g b) : first.map f = second.map g := by
  induction h with
  | nil => rfl
  | cons hHead _ ih => rw [List.map_cons, List.map_cons, hSame _ _ hHead, ih]

/-- One more reference under a code. -/
theorem refsOf_addReference (byDimension : List (Text × List Text)) (code ref other : Text) :
    ((addReference byDimension code ref).lookup other).getD [] =
      if other = code then (byDimension.lookup other).getD [] ++ [ref] else (byDimension.lookup other).getD [] := by
  unfold addReference
  split
  · rename_i hKnown
    induction byDimension with
    | nil => cases hKnown
    | cons entry rest ih =>
        obtain ⟨key, found⟩ := entry
        by_cases hKey : key = code
        · subst hKey
          have hRest : ∀ rest : List (Text × List Text), other ≠ key →
              (rest.map fun entry => if entry.1 = key then (key, entry.2 ++ [ref]) else entry).lookup other =
                rest.lookup other := by
            intro rest hOther
            induction rest with
            | nil => rfl
            | cons entry rest ih =>
                obtain ⟨name, refs⟩ := entry
                by_cases hName : name = key
                · subst hName
                  simp [List.lookup_cons, ih, beq_false_of_ne hOther]
                · simp [List.lookup_cons, ih, hName]
          by_cases hOther : other = key
          · subst hOther
            simp
          · simp only [List.map_cons, if_true, List.lookup_cons, beq_false_of_ne hOther, hRest rest hOther, if_neg hOther]
        · have hMem : code ∈ rest.map (·.1) := by
            rcases List.mem_cons.mp hKnown with hEq | hMem
            · exact absurd hEq.symm hKey
            · exact hMem
          by_cases hOther : other = key
          · subst hOther
            simp [hKey]
          · have hLater := ih hMem
            simp only [List.map_cons, if_neg hKey, List.lookup_cons, beq_false_of_ne hOther]
            exact hLater
  · rename_i hNew
    by_cases hOther : other = code
    · subst hOther
      have hNone : byDimension.lookup other = none := by
        rw [List.lookup_eq_none_iff]
        intro entry hEntry
        rw [bne_iff_ne]
        rintro rfl
        exact hNew (List.mem_map_of_mem hEntry)
      simp [List.lookup_append, hNone]
    · rw [List.lookup_append, if_neg hOther, List.lookup_cons, beq_false_of_ne hOther, List.lookup_nil, Option.or_none]

/-! Collecting suggestions. -/

/-- What one suggestion may do to the collection: nothing, be listed for the
whole report, or be listed for the selected dimension it names. -/
inductive Adds (refs : List (Text × Text)) (ref : Text) (code : Value) (collected next : Collected) : Prop
  | skips (hResult : next.result = collected.result) (hRefs : next.byDimension = collected.byDimension)
  | general (category : Value) (content : Text) (hCode : code.truthy = false)
      (hResult : next.result = collected.result ++ [⟨ref, category, content, []⟩])
      (hRefs : next.byDimension = collected.byDimension)
  | dimension (category : Value) (content name own : Text) (hCode : code = .string name)
      (hOwn : refs.lookup name = some own) (hResult : next.result = collected.result ++ [⟨ref, category, content, [own]⟩])
      (hRefs : next.byDimension = addReference collected.byDimension name ref)

theorem append_adds {refs : List (Text × Text)} {collected next : Collected} {ref : Text} {category content code : Value}
    (h : append refs collected ref category content code = .ok next) : Adds refs ref code collected next := by
  unfold append at h
  split at h
  · simp [invalidInput] at h
  rw [bind_ok] at h
  obtain ⟨found, -, h⟩ := h
  rw [bind_ok] at h
  obtain ⟨-, -, h⟩ := h
  split at h
  · cases h
    exact .skips rfl rfl
  simp only at h
  split at h
  · rename_i hCode
    cases h
    exact .general category found hCode rfl rfl
  split at h
  · split at h
    · rename_i own hOwn
      cases h
      exact .dimension category found _ own rfl hOwn rfl rfl
    · cases h
      exact .skips rfl rfl
  · cases h
    exact .skips rfl rfl

/-- The suggestion goes by this reference, and belongs to the whole report or to
the selected dimension with the code. -/
def Suggestion.Belongs (suggestion : Suggestion) (refs : List (Text × Text)) (ref : Text) (code : Value) : Prop :=
  suggestion.ref = ref ∧ ((code.truthy = false ∧ suggestion.dimensionRefs = []) ∨
    ∃ name own, code = .string name ∧ refs.lookup name = some own ∧ suggestion.dimensionRefs = [own])

/-- The collection so far: references differ, suggestions and dimensions name
each other, and every suggestion has its origin. -/
structure Collected.Sound (collected : Collected) (refs : List (Text × Text)) (origin : Suggestion → Prop) : Prop where
  distinct : (collected.result.map (·.ref)).Nodup
  origins : ∀ suggestion ∈ collected.result, origin suggestion
  listed : ∀ suggestion ∈ collected.result, suggestion.dimensionRefs = [] ∨ ∃ code own,
    refs.lookup code = some own ∧ suggestion.dimensionRefs = [own] ∧ suggestion.ref ∈ collected.refsOf code
  named : ∀ code, ∀ ref ∈ collected.refsOf code, ∃ suggestion ∈ collected.result, suggestion.ref = ref ∧
    ∃ own, refs.lookup code = some own ∧ suggestion.dimensionRefs = [own]

theorem Collected.sound_empty (refs : List (Text × Text)) (origin : Suggestion → Prop) : ({} : Collected).Sound refs origin where
  distinct := List.nodup_nil
  origins := nofun
  listed := nofun
  named := nofun

theorem Adds.sound {refs : List (Text × Text)} {origin : Suggestion → Prop} {collected next : Collected} {ref : Text}
    {code : Value} (h : Adds refs ref code collected next) (hSound : collected.Sound refs origin)
    (hNew : ref ∉ collected.result.map (·.ref)) (hOrigin : ∀ suggestion : Suggestion, suggestion.Belongs refs ref code → origin suggestion) :
    next.Sound refs origin ∧ ∀ suggestion ∈ next.result, suggestion ∈ collected.result ∨ suggestion.ref = ref := by
  have hDistinct : ∀ suggestion : Suggestion, suggestion.ref = ref →
      ((collected.result ++ [suggestion]).map (·.ref)).Nodup := by
    rintro suggestion rfl
    rw [List.map_append, List.map_singleton]
    exact List.nodup_append.mpr ⟨hSound.distinct, List.nodup_singleton _, fun a ha b hb hSame =>
      hNew (List.mem_singleton.mp hb ▸ hSame ▸ ha)⟩
  cases h with
  | skips hResult hRefs =>
      have hRefsOf : next.refsOf = collected.refsOf := by
        funext code
        rw [Collected.refsOf, Collected.refsOf, hRefs]
      refine ⟨⟨?_, ?_, ?_, ?_⟩, fun suggestion hMem => .inl (hResult ▸ hMem)⟩
      · rw [hResult]
        exact hSound.distinct
      · rw [hResult]
        exact hSound.origins
      · rw [hResult, hRefsOf]
        exact hSound.listed
      · rw [hResult, hRefsOf]
        exact hSound.named
  | general category content hCode hResult hRefs =>
      have hRefsOf : next.refsOf = collected.refsOf := by
        funext code
        rw [Collected.refsOf, Collected.refsOf, hRefs]
      refine ⟨⟨?_, ?_, ?_, ?_⟩, ?_⟩
      · rw [hResult]
        exact hDistinct _ rfl
      · intro suggestion hMem
        rw [hResult, List.mem_append, List.mem_singleton] at hMem
        rcases hMem with hMem | rfl
        · exact hSound.origins suggestion hMem
        · exact hOrigin _ ⟨rfl, .inl ⟨hCode, rfl⟩⟩
      · intro suggestion hMem
        rw [hResult, List.mem_append, List.mem_singleton] at hMem
        rcases hMem with hMem | rfl
        · rw [hRefsOf]
          exact hSound.listed suggestion hMem
        · exact .inl rfl
      · intro code ref hMem
        rw [hRefsOf] at hMem
        obtain ⟨suggestion, hListed, hRest⟩ := hSound.named code ref hMem
        exact ⟨suggestion, by rw [hResult]; exact List.mem_append_left _ hListed, hRest⟩
      · intro suggestion hMem
        rw [hResult, List.mem_append, List.mem_singleton] at hMem
        rcases hMem with hMem | rfl
        · exact .inl hMem
        · exact .inr rfl
  | dimension category content name own hCode hOwn hResult hRefs =>
      have hRefsOf : ∀ code, next.refsOf code =
          if code = name then collected.refsOf code ++ [ref] else collected.refsOf code := by
        intro code
        rw [Collected.refsOf, hRefs, refsOf_addReference]
        rfl
      have hMore : ∀ code, ∀ old ∈ collected.refsOf code, old ∈ next.refsOf code := by
        intro code old hOld
        rw [hRefsOf]
        split
        · exact List.mem_append_left _ hOld
        · exact hOld
      refine ⟨⟨?_, ?_, ?_, ?_⟩, ?_⟩
      · rw [hResult]
        exact hDistinct _ rfl
      · intro suggestion hMem
        rw [hResult, List.mem_append, List.mem_singleton] at hMem
        rcases hMem with hMem | rfl
        · exact hSound.origins suggestion hMem
        · exact hOrigin _ ⟨rfl, .inr ⟨name, own, hCode, hOwn, rfl⟩⟩
      · intro suggestion hMem
        rw [hResult, List.mem_append, List.mem_singleton] at hMem
        rcases hMem with hMem | rfl
        · refine (hSound.listed suggestion hMem).imp_right ?_
          rintro ⟨code, own, hLookup, hDimension, hRef⟩
          exact ⟨code, own, hLookup, hDimension, hMore _ _ hRef⟩
        · refine .inr ⟨name, own, hOwn, rfl, ?_⟩
          rw [hRefsOf, if_pos rfl]
          exact List.mem_append_right _ List.mem_cons_self
      · intro code found hMem
        rw [hRefsOf] at hMem
        have hOld : found ∈ collected.refsOf code ∨ (code = name ∧ found = ref) := by
          split at hMem
          · rename_i hCodeName
            rcases List.mem_append.mp hMem with hMem | hMem
            · exact .inl hMem
            · exact .inr ⟨hCodeName, List.mem_singleton.mp hMem⟩
          · exact .inl hMem
        rcases hOld with hOld | ⟨rfl, rfl⟩
        · obtain ⟨suggestion, hListed, hRest⟩ := hSound.named code found hOld
          exact ⟨suggestion, by rw [hResult]; exact List.mem_append_left _ hListed, hRest⟩
        · exact ⟨_, by rw [hResult]; exact List.mem_append_right _ List.mem_cons_self, rfl, own, hOwn, rfl⟩
      · intro suggestion hMem
        rw [hResult, List.mem_append, List.mem_singleton] at hMem
        rcases hMem with hMem | rfl
        · exact .inl hMem
        · exact .inr rfl

/-! Where suggestions come from. -/

/-- The name of the suggestion of the report with this index. -/
def reportRef (index : Int) : Text := text "suggestion:report:" ++ intText (index + 1)

/-- The name of the suggestion of the dimension with this code. -/
def dimensionSuggestionRef (reference : Text) : Text := text "suggestion:dimension:" ++ reference

/-- The suggestion is one of the report under its index, or the one of a dimension. -/
inductive Suggestion.From (refs : List (Text × Text)) (reported dimensions : List Value) (suggestion : Suggestion) : Prop
  | report (entry : Value) (index : Int) (code : Value) (hEntry : entry ∈ reported)
      (hIndex : entry.item "source_index" = .ok (.int index)) (hCode : entry.item "dimension_code" = .ok code)
      (hBelongs : suggestion.Belongs refs (reportRef index) (orEmpty code))
  | dimension (entry : Value) (name reference : Text) (hEntry : entry ∈ dimensions)
      (hCode : entry.item "code" = .ok (.string name)) (hRef : quote safeCharacters name = some reference)
      (hBelongs : suggestion.Belongs refs (dimensionSuggestionRef reference) (.string name))

theorem printNat_injective {m n : Nat} (h : printNat m = printNat n) : m = n := by
  rw [← digitsValue_printNat m, h, digitsValue_printNat]

theorem intText_of_nonneg {value : Int} (h : 0 ≤ value) : intText value = printNat value.natAbs := by
  rw [intText, if_neg (by omega), List.nil_append]

/-- Different indices name different suggestions. -/
theorem reportRef_injective {a b : Int} (ha : 0 ≤ a) (hb : 0 ≤ b) (h : reportRef a = reportRef b) : a = b := by
  have hText := List.append_cancel_left h
  rw [intText_of_nonneg (by omega), intText_of_nonneg (by omega)] at hText
  have hSame := printNat_injective hText
  omega

theorem reportRef_ne_dimensionSuggestionRef (index : Int) (reference : Text) :
    reportRef index ≠ dimensionSuggestionRef reference := by
  intro h
  have hHead := congrArg (fun name : Text => name[11]?) h
  simp [reportRef, dimensionSuggestionRef, text] at hHead

theorem ref_ok {code reference : Text} : ref code = .ok reference ↔ quote safeCharacters code = some reference := by
  rw [ref, native_ok, demand_ok]

theorem ref_injective {a b reference : Text} (ha : quote safeCharacters a = some reference)
    (hb : quote safeCharacters b = some reference) : a = b := quote_injective (by decide) ha hb

theorem shownInt_ok {value : Int} {shown : Text} (h : shownInt value = .ok shown) : shown = intText value := by
  rw [shownInt, bind_ok] at h
  obtain ⟨-, -, h⟩ := h
  exact ((pure_ok _ _).mp h).symm

/-- One suggestion of the report is added under an index of its own. -/
theorem reportSuggestion_adds {refs : List (Text × Text)} {indices nextIndices : List Int} {collected next : Collected}
    {entry : Value} (h : reportSuggestion refs indices collected entry = .ok (nextIndices, next)) :
    ∃ index code, entry.item "source_index" = .ok (.int index) ∧ entry.item "dimension_code" = .ok code ∧ 0 ≤ index ∧
      index ∉ indices ∧ nextIndices = indices ++ [index] ∧ Adds refs (reportRef index) (orEmpty code) collected next := by
  rw [reportSuggestion, bind_ok] at h
  obtain ⟨found, hIndex, h⟩ := h
  rw [native_ok] at hIndex
  split at h
  · rename_i index
    split at h
    · simp [invalidInput] at h
    rename_i hNew
    rw [bind_ok] at h
    obtain ⟨shown, hShown, h⟩ := h
    cases shownInt_ok hShown
    rw [bind_ok] at h
    obtain ⟨category, -, h⟩ := h
    rw [bind_ok] at h
    obtain ⟨content, -, h⟩ := h
    rw [bind_ok] at h
    obtain ⟨code, hCode, h⟩ := h
    rw [bind_ok] at h
    obtain ⟨added, hAdded, h⟩ := h
    rw [pure_ok, Prod.mk.injEq] at h
    obtain ⟨rfl, rfl⟩ := h
    exact ⟨index, code, hIndex, native_ok.mp hCode, by omega, fun hMem => hNew (.inr hMem), rfl, append_adds hAdded⟩
  · simp [invalidInput] at h

/-- The suggestions of the report go by their indices, all of them different. -/
theorem reportSuggestions_sound {refs : List (Text × Text)} {reported dimensions : List Value} {indices : List Int}
    {collected next : Collected} {entries : List Value} (hEntries : ∀ entry ∈ entries, entry ∈ reported)
    (h : reportSuggestions refs indices collected entries = .ok next)
    (hSound : collected.Sound refs (Suggestion.From refs reported dimensions))
    (hIndices : ∀ suggestion ∈ collected.result, ∃ index ∈ indices, 0 ≤ index ∧ suggestion.ref = reportRef index) :
    next.Sound refs (Suggestion.From refs reported dimensions) ∧
      ∀ suggestion ∈ next.result, ∃ index, suggestion.ref = reportRef index := by
  induction entries generalizing indices collected with
  | nil =>
      cases h
      refine ⟨hSound, fun suggestion hMem => ?_⟩
      obtain ⟨index, -, -, hRef⟩ := hIndices suggestion hMem
      exact ⟨index, hRef⟩
  | cons entry entries ih =>
      rw [reportSuggestions, bind_ok] at h
      obtain ⟨⟨nextIndices, added⟩, hStep, h⟩ := h
      obtain ⟨index, code, hIndex, hCode, hNonneg, hNew, rfl, hAdds⟩ := reportSuggestion_adds hStep
      have hEntry := hEntries entry List.mem_cons_self
      have hFresh : reportRef index ∉ collected.result.map (·.ref) := by
        rw [List.mem_map]
        rintro ⟨suggestion, hMem, hRef⟩
        obtain ⟨old, hOld, hOldNonneg, hOldRef⟩ := hIndices suggestion hMem
        rw [hOldRef] at hRef
        exact hNew (reportRef_injective hOldNonneg hNonneg hRef ▸ hOld)
      obtain ⟨hNext, hMembers⟩ := hAdds.sound hSound hFresh fun suggestion hBelongs =>
        .report entry index code hEntry hIndex hCode hBelongs
      refine ih (fun entry hMem => hEntries entry (List.mem_cons_of_mem _ hMem)) h hNext fun suggestion hMem => ?_
      rcases hMembers suggestion hMem with hOld | hRef
      · obtain ⟨old, hMemOld, hOldNonneg, hOldRef⟩ := hIndices suggestion hOld
        exact ⟨old, List.mem_append_left _ hMemOld, hOldNonneg, hOldRef⟩
      · exact ⟨index, List.mem_append_right _ List.mem_cons_self, hNonneg, hRef⟩

/-- The suggestion of a dimension, unless it is blank. -/
theorem dimensionSuggestion_adds {refs : List (Text × Text)} {collected next : Collected} {entry : Value} {name : Text}
    (hName : entry.item "code" = .ok (.string name)) (h : dimensionSuggestion refs collected entry = .ok next) :
    next = collected ∨ ∃ reference, quote safeCharacters name = some reference ∧
      Adds refs (dimensionSuggestionRef reference) (.string name) collected next := by
  rw [dimensionSuggestion, bind_ok] at h
  obtain ⟨suggestion, -, h⟩ := h
  rw [bind_ok] at h
  obtain ⟨words, -, h⟩ := h
  split at h
  · exact .inl ((pure_ok _ _).mp h).symm
  rw [bind_ok] at h
  obtain ⟨code, hCode, h⟩ := h
  rw [native_ok, hName] at hCode
  cases hCode
  rw [bind_ok] at h
  obtain ⟨own, hOwn, h⟩ := h
  cases hOwn
  rw [bind_ok] at h
  obtain ⟨reference, hRef, h⟩ := h
  exact .inr ⟨reference, ref_ok.mp hRef, append_adds h⟩

/-- Dimensions with different codes have suggestions with different names. -/
theorem dimensionSuggestions_sound {refs : List (Text × Text)} {reported dimensions : List Value} {coded : List (Text × Value)}
    {collected next : Collected} (hCoded : ∀ d ∈ coded, d.2 ∈ dimensions ∧ d.2.item "code" = .ok (.string d.1))
    (hDistinct : (coded.map (·.1)).Nodup)
    (h : (coded.map (·.2)).foldlM (dimensionSuggestion refs) collected = .ok next)
    (hSound : collected.Sound refs (Suggestion.From refs reported dimensions))
    (hFresh : ∀ d ∈ coded, ∀ reference, quote safeCharacters d.1 = some reference →
      dimensionSuggestionRef reference ∉ collected.result.map (·.ref)) :
    next.Sound refs (Suggestion.From refs reported dimensions) := by
  induction coded generalizing collected with
  | nil =>
      cases h
      exact hSound
  | cons d coded ih =>
      rw [List.map_cons, List.foldlM_cons, bind_ok] at h
      obtain ⟨added, hStep, h⟩ := h
      obtain ⟨hMem, hCode⟩ := hCoded d List.mem_cons_self
      rw [List.map_cons, List.nodup_cons] at hDistinct
      have hLater : ∀ d ∈ coded, d.2 ∈ dimensions ∧ d.2.item "code" = .ok (.string d.1) := fun d hd =>
        hCoded d (List.mem_cons_of_mem _ hd)
      rcases dimensionSuggestion_adds hCode hStep with rfl | ⟨reference, hRef, hAdds⟩
      · exact ih hLater hDistinct.2 h hSound fun d hd => hFresh d (List.mem_cons_of_mem _ hd)
      obtain ⟨hNext, hMembers⟩ := hAdds.sound hSound (hFresh d List.mem_cons_self reference hRef) fun suggestion hBelongs =>
        .dimension d.2 d.1 reference hMem hCode hRef hBelongs
      refine ih hLater hDistinct.2 h hNext fun later hd laterRef hLaterRef hOld => ?_
      obtain ⟨suggestion, hListed, hSame⟩ := List.mem_map.mp hOld
      rcases hMembers suggestion hListed with hOldMem | hNew
      · exact hFresh later (List.mem_cons_of_mem _ hd) laterRef hLaterRef (hSame ▸ List.mem_map_of_mem hOldMem)
      · have hQuoted : laterRef = reference := List.append_cancel_left (hSame.symm.trans hNew)
        subst hQuoted
        exact hDistinct.1 (ref_injective hLaterRef hRef ▸ List.mem_map_of_mem hd)

/-! Selected dimensions. -/

theorem codeOf_some {d : Value} {code : Text} (h : codeOf d = some code) : d.item "code" = .ok (.string code) ∧ code ≠ [] := by
  unfold codeOf at h
  split at h
  · rename_i found hFound
    split at h
    · cases h
    · rename_i hSome
      cases h
      exact ⟨hFound, hSome⟩
  · cases h

/-- Each dimension goes by its code, and the codes are different. -/
structure Coded (dimensions : List Value) (coded : List (Text × Value)) : Prop where
  covers : coded.map (·.2) = dimensions
  codes : ∀ d ∈ coded, d.2.item "code" = .ok (.string d.1) ∧ d.1 ≠ []
  distinct : (coded.map (·.1)).Nodup

theorem codedDimensions_ok {dimensions : List Value} {coded : List (Text × Value)}
    (h : codedDimensions dimensions = .ok coded) : Coded dimensions coded := by
  rw [codedDimensions, bind_ok] at h
  obtain ⟨-, -, h⟩ := h
  split at h
  · rename_i found hFound
    split at h
    · rename_i hDistinct
      cases h
      have hPairs := mapM_some hFound
      refine ⟨?_, ?_, hDistinct⟩
      · have hBack : dimensions.map id = coded.map (·.2) := beside_map hPairs fun entry d hStep => by
          obtain ⟨code, -, rfl⟩ := Option.map_eq_some_iff.mp hStep
          rfl
        rw [← hBack, List.map_id]
      · intro d hMem
        obtain ⟨entry, -, hStep⟩ := beside_right hPairs hMem
        obtain ⟨code, hCode, rfl⟩ := Option.map_eq_some_iff.mp hStep
        exact codeOf_some hCode
    · simp [invalidInput] at h
  · simp [invalidInput] at h

/-- The reference of a dimension by its code. -/
def dimensionRef (code : Text) : Option Text := (quote safeCharacters code).map (text "dimension:" ++ ·)

theorem dimensionRef_injective {a b ref : Text} (ha : dimensionRef a = some ref) (hb : dimensionRef b = some ref) : a = b := by
  obtain ⟨first, hFirst, hA⟩ := Option.map_eq_some_iff.mp ha
  obtain ⟨second, hSecond, hB⟩ := Option.map_eq_some_iff.mp hb
  have hQuoted : first = second := List.append_cancel_left (hA.trans hB.symm)
  exact ref_injective hFirst (hQuoted ▸ hSecond)

/-- The selected dimensions carry the reference of their code. -/
structure Selected (policy : InputPolicy) (coded : List (Text × Value)) (selected : List (Text × Text × Value)) : Prop where
  source : ∀ d ∈ selected, (d.1, d.2.2) ∈ coded ∧ InputPolicy.selects policy d.1 = true
  refs : ∀ d ∈ selected, dimensionRef d.1 = some d.2.1
  codes : (selected.map (·.1)).Nodup
  complete : ∀ d ∈ coded, InputPolicy.selects policy d.1 = true → ∃ found ∈ selected, found.1 = d.1 ∧ found.2.2 = d.2

theorem selectedDimensions_ok {policy : InputPolicy} {coded : List (Text × Value)} {selected : List (Text × Text × Value)}
    (hDistinct : (coded.map (·.1)).Nodup) (h : selectedDimensions policy coded = .ok selected) :
    Selected policy coded selected := by
  unfold selectedDimensions at h
  simp only at h
  split at h
  · simp [notApplicable] at h
  have hPairs := (mapM_ok _ _ _).mp h
  have hStep : ∀ {d : Text × Value} {found : Text × Text × Value},
      (do
        let reference ← ref d.1
        pure (d.1, text "dimension:" ++ reference, d.2) : Assembly _) = .ok found →
      found.1 = d.1 ∧ found.2.2 = d.2 ∧ dimensionRef d.1 = some found.2.1 := by
    intro d found hFound
    rw [bind_ok] at hFound
    obtain ⟨reference, hRef, hFound⟩ := hFound
    rw [pure_ok] at hFound
    subst hFound
    exact ⟨rfl, rfl, by rw [dimensionRef, ref_ok.mp hRef, Option.map_some]⟩
  refine ⟨?_, ?_, ?_, ?_⟩
  · intro found hMem
    obtain ⟨d, hd, hFound⟩ := beside_right hPairs hMem
    obtain ⟨hCode, hValue, -⟩ := hStep hFound
    rw [hCode, hValue]
    exact List.mem_filter.mp hd
  · intro found hMem
    obtain ⟨d, hd, hFound⟩ := beside_right hPairs hMem
    obtain ⟨hCode, -, hRef⟩ := hStep hFound
    rw [hCode]
    exact hRef
  · rw [← beside_map hPairs fun d found hFound => (hStep hFound).1.symm]
    exact hDistinct.sublist (List.filter_sublist.map _)
  · intro d hMem hSelects
    obtain ⟨found, hFound, hSame⟩ := beside_right hPairs.flip (List.mem_filter.mpr ⟨hMem, hSelects⟩)
    obtain ⟨hCode, hValue, -⟩ := hStep hSame
    exact ⟨found, hFound, hCode, hValue⟩

/-- Different selected dimensions go by different references. -/
theorem Selected.refs_injective {policy : InputPolicy} {coded : List (Text × Value)} {selected : List (Text × Text × Value)}
    (h : Selected policy coded selected) {a b : Text × Text × Value} (ha : a ∈ selected) (hb : b ∈ selected)
    (hSame : a.2.1 = b.2.1) : a.1 = b.1 :=
  dimensionRef_injective (h.refs a ha) (hSame ▸ h.refs b hb)

theorem Selected.refs_distinct {policy : InputPolicy} {coded : List (Text × Value)} {selected : List (Text × Text × Value)}
    (h : Selected policy coded selected) : (selected.map (·.2.1)).Nodup := by
  rw [List.Nodup, List.pairwise_map]
  have hCodes := h.codes
  rw [List.Nodup, List.pairwise_map] at hCodes
  exact hCodes.imp_of_mem fun ha hb hOther hSame => hOther (h.refs_injective ha hb hSame)

/-- All suggestions, those of the report and those of the dimensions. -/
theorem suggestions_sound {snapshot reported : Value} {entries dimensions : List Value} {coded : List (Text × Value)}
    {refs : List (Text × Text)} {collected : Collected} (hReported : snapshot.item "suggestions" = .ok reported)
    (hEntries : reported.elements = .ok entries) (hDimensions : (snapshot.item "dimensions").bind Value.elements = .ok dimensions)
    (hCoded : Coded dimensions coded) (h : suggestions snapshot refs = .ok collected) :
    collected.Sound refs (Suggestion.From refs entries dimensions) := by
  rw [suggestions, bind_ok] at h
  obtain ⟨found, hFound, h⟩ := h
  rw [native_ok, hReported] at hFound
  cases hFound
  rw [bind_ok] at h
  obtain ⟨found, hFound, h⟩ := h
  rw [native_ok, hEntries] at hFound
  cases hFound
  rw [bind_ok] at h
  obtain ⟨fromReport, hReport, h⟩ := h
  rw [bind_ok] at h
  obtain ⟨listed, hListed, h⟩ := h
  rw [native_ok] at hListed
  rw [bind_ok] at h
  obtain ⟨found, hFound, h⟩ := h
  rw [native_ok] at hFound
  rw [hListed, Except.bind, hFound] at hDimensions
  cases hDimensions
  obtain ⟨hSound, hNames⟩ := reportSuggestions_sound (fun _ hMem => hMem) hReport (Collected.sound_empty _ _) nofun
  rw [← hCoded.covers] at h
  refine dimensionSuggestions_sound (fun d hMem => ⟨?_, (hCoded.codes d hMem).1⟩) hCoded.distinct h hSound ?_
  · exact hCoded.covers ▸ List.mem_map_of_mem hMem
  · intro d _ reference _ hMem
    obtain ⟨suggestion, hListed, hSame⟩ := List.mem_map.mp hMem
    obtain ⟨index, hRef⟩ := hNames suggestion hListed
    exact reportRef_ne_dimensionSuggestionRef index reference (hRef.symm.trans hSame)

/-- What a projected dimension refers to. -/
theorem project_ok {policy : InputPolicy} {refs : List (Text × Text)} {collected : Collected} {d : Value} {code ownRef : Text}
    {projected : ProjectedDimension} (h : project policy refs collected d code ownRef = .ok projected) :
    projected.ref = ownRef ∧ projected.code = code ∧ projected.standardSuggestionRefs = collected.refsOf code ∧
      ∃ parentCode, d.item "parent_code" = .ok parentCode ∧
        projected.parentRef = match parentCode with
          | .string parent => refs.lookup parent
          | _ => none := by
  simp only [project, bind_ok, native_ok] at h
  obtain ⟨_, -, _, -, _, -, _, -, _, -, _, -, _, -, parentCode, hParentCode, parentRef, hParent, _, -, _, -, _, -, _, -,
    _, -, _, -, _, -, _, -, h⟩ := h
  have hResult : projected.ref = ownRef ∧ projected.code = code ∧
      projected.standardSuggestionRefs = collected.refsOf code ∧ projected.parentRef = parentRef := by
    split at h
    · simp only [bind_ok, pure_ok] at h
      obtain ⟨_, -, _, -, _, -, _, -, _, -, rfl⟩ := h
      exact ⟨rfl, rfl, rfl, rfl⟩
    · simp only [bind_ok, pure_ok] at h
      obtain ⟨_, -, _, -, _, -, _, -, rfl⟩ := h
      exact ⟨rfl, rfl, rfl, rfl⟩
  obtain ⟨hRef, hCode, hSuggestions, hParentRef⟩ := hResult
  refine ⟨hRef, hCode, hSuggestions, parentCode, hParentCode, ?_⟩
  rw [hParentRef]
  simp only [refOf, bind_ok, native_ok, require_ok] at hParent
  obtain ⟨-, -, hParent⟩ := hParent
  cases parentCode <;> exact ((pure_ok _ _).mp hParent).symm

/-! Closed facts. -/

/-- A listed suggestion is one of the report that is for the whole report or for
a selected dimension, or it is the one of a selected dimension. -/
inductive Suggestion.OfSelected (policy : InputPolicy) (reported listed : List Value) (suggestion : Suggestion) : Prop
  | whole (entry : Value) (index : Int) (code : Value) (hEntry : entry ∈ reported)
      (hIndex : entry.item "source_index" = .ok (.int index)) (hCode : entry.item "dimension_code" = .ok code)
      (hRef : suggestion.ref = reportRef index) (hNone : code.truthy = false) (hRefs : suggestion.dimensionRefs = [])
  | report (entry : Value) (index : Int) (name : Text) (hEntry : entry ∈ reported)
      (hIndex : entry.item "source_index" = .ok (.int index)) (hCode : entry.item "dimension_code" = .ok (.string name))
      (hRef : suggestion.ref = reportRef index) (hSelected : InputPolicy.selects policy name = true)
  | dimension (entry : Value) (name reference : Text) (hEntry : entry ∈ listed)
      (hCode : entry.item "code" = .ok (.string name)) (hQuoted : quote safeCharacters name = some reference)
      (hRef : suggestion.ref = dimensionSuggestionRef reference) (hSelected : InputPolicy.selects policy name = true)

/-- The facts refer only to each other. -/
structure ScaleFacts.Closed (facts : ScaleFacts) (policy : InputPolicy) (reported listed : List Value) : Prop where
  dimensions : (facts.dimensions.map (·.ref)).Nodup
  suggestions : (facts.suggestions.map (·.ref)).Nodup
  named : ∀ d ∈ facts.dimensions, dimensionRef d.code = some d.ref
  parents : ∀ d ∈ facts.dimensions, ∀ above, d.parentRef = some above → above ∈ facts.dimensions.map (·.ref)
  cited : ∀ d ∈ facts.dimensions, ∀ ref ∈ d.standardSuggestionRefs, ∃ suggestion ∈ facts.suggestions,
    suggestion.ref = ref ∧ suggestion.dimensionRefs = [d.ref]
  citing : ∀ suggestion ∈ facts.suggestions, ∀ ref ∈ suggestion.dimensionRefs, ∃ d ∈ facts.dimensions,
    d.ref = ref ∧ suggestion.dimensionRefs = [ref] ∧ suggestion.ref ∈ d.standardSuggestionRefs
  selected : ∀ suggestion ∈ facts.suggestions, suggestion.OfSelected policy reported listed

theorem Suggestion.From.ofSelected {policy : InputPolicy} {refs : List (Text × Text)} {reported listed : List Value}
    {suggestion : Suggestion} (h : suggestion.From refs reported listed)
    (hRefs : ∀ code ref, refs.lookup code = some ref → InputPolicy.selects policy code = true ∧ code ≠ [])
    (hCodes : ∀ entry ∈ listed, entry.item "code" ≠ .ok (.string [])) : suggestion.OfSelected policy reported listed := by
  cases h with
  | report entry index code hEntry hIndex hCode hBelongs =>
      obtain ⟨hRef, ⟨hNone, hDimensions⟩ | ⟨name, own, hName, hOwn, -⟩⟩ := hBelongs
      · by_cases hTruthy : code.truthy = true
        · rw [orEmpty, if_pos hTruthy, hTruthy] at hNone
          cases hNone
        · exact .whole entry index code hEntry hIndex hCode hRef (Bool.eq_false_iff.mpr hTruthy) hDimensions
      · obtain ⟨hSelects, hSome⟩ := hRefs name own hOwn
        rw [orEmpty] at hName
        split at hName
        · exact .report entry index name hEntry hIndex (hName ▸ hCode) hRef hSelects
        · cases hName
          exact absurd rfl hSome
  | dimension entry name reference hEntry hCode hQuoted hBelongs =>
      obtain ⟨hRef, ⟨hNone, -⟩ | ⟨found, own, hName, hOwn, -⟩⟩ := hBelongs
      · have hEmpty : name = [] := by simpa [Value.truthy] using hNone
        subst hEmpty
        exact absurd hCode (hCodes entry hEntry)
      · cases hName
        exact .dimension entry name reference hEntry hCode hQuoted hRef (hRefs name own hOwn).1

/-- Projecting the selected dimensions of a sound collection closes the facts. -/
theorem closed_of_selected {policy : InputPolicy} {facts : ScaleFacts} {reported listed : List Value}
    {coded : List (Text × Value)} {selected : List (Text × Text × Value)} {projected : List ProjectedDimension}
    {collected : Collected} (hCoded : Coded listed coded) (hSelected : Selected policy coded selected)
    (hSound : collected.Sound (selected.map fun d => (d.1, d.2.1))
      (Suggestion.From (selected.map fun d => (d.1, d.2.1)) reported listed))
    (hProjected : selected.mapM (fun d => project policy (selected.map fun d => (d.1, d.2.1)) collected d.2.2 d.1 d.2.1) =
      .ok projected)
    (hDimensions : facts.dimensions = projected.insertionSort (before · ·)) (hSuggestions : facts.suggestions = collected.result) :
    facts.Closed policy reported listed := by
  have hPairs := (mapM_ok _ _ _).mp hProjected
  have hPerm : List.Perm (projected.insertionSort (before · ·)) projected := List.perm_insertionSort _ _
  have hRefs : selected.map (·.2.1) = projected.map (·.ref) := beside_map hPairs fun d found hStep => (project_ok hStep).1.symm
  have hKeys : ((selected.map fun d => (d.1, d.2.1)).map (·.1)).Nodup := by
    rw [List.map_map]
    exact hSelected.codes
  -- A reference that a code is looked up to is the one of a projected dimension.
  have hLookup : ∀ code ref, (selected.map fun d => (d.1, d.2.1)).lookup code = some ref →
      ∃ d ∈ selected, d.1 = code ∧ d.2.1 = ref := by
    intro code ref hFound
    obtain ⟨d, hMem, hSame⟩ := List.mem_map.mp (mem_of_lookup hFound)
    rw [Prod.mk.injEq] at hSame
    exact ⟨d, hMem, hSame⟩
  have hFact : ∀ d ∈ selected, ∃ found ∈ facts.dimensions, found.ref = d.2.1 ∧ found.code = d.1 ∧
      found.standardSuggestionRefs = collected.refsOf d.1 := by
    intro d hMem
    obtain ⟨found, hFound, hStep⟩ := beside_right hPairs.flip hMem
    obtain ⟨hRef, hCode, hCited, -⟩ := project_ok hStep
    exact ⟨found, hDimensions ▸ hPerm.mem_iff.mpr hFound, hRef, hCode, hCited⟩
  have hSource : ∀ found ∈ facts.dimensions, ∃ d ∈ selected,
      project policy (selected.map fun d => (d.1, d.2.1)) collected d.2.2 d.1 d.2.1 = .ok found := by
    intro found hMem
    rw [hDimensions] at hMem
    exact beside_right hPairs (hPerm.mem_iff.mp hMem)
  refine ⟨?_, hSuggestions ▸ hSound.distinct, ?_, ?_, ?_, ?_, ?_⟩
  · rw [hDimensions, (hPerm.map _).nodup_iff, ← hRefs]
    exact hSelected.refs_distinct
  · intro found hMem
    obtain ⟨d, hd, hStep⟩ := hSource found hMem
    obtain ⟨hRef, hCode, -⟩ := project_ok hStep
    rw [hRef, hCode]
    exact hSelected.refs d hd
  · intro found hMem above hParent
    obtain ⟨d, -, hStep⟩ := hSource found hMem
    obtain ⟨-, -, -, parentCode, -, hParentRef⟩ := project_ok hStep
    rw [hParent] at hParentRef
    split at hParentRef
    · obtain ⟨parent, hParentMem, -, rfl⟩ := hLookup _ _ hParentRef.symm
      obtain ⟨fact, hFactMem, hFactRef, -⟩ := hFact parent hParentMem
      exact List.mem_map.mpr ⟨fact, hFactMem, hFactRef⟩
    · cases hParentRef
  · intro found hMem ref hCited
    obtain ⟨d, hd, hStep⟩ := hSource found hMem
    obtain ⟨hRef, -, hRefsOf, -⟩ := project_ok hStep
    rw [hRefsOf] at hCited
    obtain ⟨suggestion, hListed, hName, own, hOwn, hOnly⟩ := hSound.named _ _ hCited
    have hSame := lookup_of_mem hKeys (List.mem_map_of_mem (f := fun d : Text × Text × Value => (d.1, d.2.1)) hd)
    rw [hSame] at hOwn
    cases hOwn
    exact ⟨suggestion, hSuggestions ▸ hListed, hName, hRef ▸ hOnly⟩
  · intro suggestion hMem ref hRef
    rw [hSuggestions] at hMem
    rcases hSound.listed suggestion hMem with hNone | ⟨code, own, hOwn, hOnly, hCited⟩
    · rw [hNone] at hRef
      cases hRef
    · rw [hOnly, List.mem_singleton] at hRef
      subst hRef
      obtain ⟨d, hd, rfl, rfl⟩ := hLookup _ _ hOwn
      obtain ⟨fact, hFactMem, hFactRef, -, hFactCited⟩ := hFact d hd
      exact ⟨fact, hFactMem, hFactRef, hOnly, hFactCited ▸ hCited⟩
  · intro suggestion hMem
    rw [hSuggestions] at hMem
    refine (hSound.origins suggestion hMem).ofSelected ?_ ?_
    · intro code ref hFound
      obtain ⟨d, hd, rfl, -⟩ := hLookup _ _ hFound
      obtain ⟨hSourceMem, hSelects⟩ := hSelected.source d hd
      exact ⟨hSelects, (hCoded.codes _ hSourceMem).2⟩
    · intro entry hEntry hEmpty
      rw [← hCoded.covers] at hEntry
      obtain ⟨d, hd, rfl⟩ := List.mem_map.mp hEntry
      obtain ⟨hCode, hSome⟩ := hCoded.codes d hd
      rw [hCode] at hEmpty
      exact hSome (Value.string.inj (Except.ok.inj hEmpty))

/-- How the facts of a report come about. -/
structure Parts (snapshot : Value) (policy : InputPolicy) (facts : ScaleFacts) (reported listed : List Value)
    (coded : List (Text × Value)) (selected : List (Text × Text × Value)) (collected : Collected)
    (projected : List ProjectedDimension) : Prop where
  suggestionsRead : (snapshot.item "suggestions").bind Value.elements = .ok reported
  dimensionsRead : (snapshot.item "dimensions").bind Value.elements = .ok listed
  codes : Coded listed coded
  selection : Selected policy coded selected
  sound : collected.Sound (selected.map fun d => (d.1, d.2.1))
    (Suggestion.From (selected.map fun d => (d.1, d.2.1)) reported listed)
  projection : selected.mapM (fun d => project policy (selected.map fun d => (d.1, d.2.1)) collected d.2.2 d.1 d.2.1) =
    .ok projected
  dimensions : facts.dimensions = projected.insertionSort (before · ·)
  suggestions : facts.suggestions = collected.result

theorem scaleFacts_parts {snapshot : Value} {policy : InputPolicy} {facts : ScaleFacts}
    (h : scaleFacts snapshot policy = .ok facts) : ∃ reported listed coded selected collected projected,
      Parts snapshot policy facts reported listed coded selected collected projected := by
  simp only [scaleFacts, bind_ok, native_ok] at h
  obtain ⟨_, -, _, -, _, -, _, -, _, -, dimensions, hDimensions, listed, hListed, coded, hCoded, selected, hSelected,
    collected, hCollected, projected, hProjected, _, -, _, -, _, -, _, -, _, -, _, -, h⟩ := h
  have hFacts : facts.dimensions = projected.insertionSort (before · ·) ∧ facts.suggestions = collected.result := by
    split at h
    · simp only [bind_ok, pure_ok] at h
      obtain ⟨_, -, _, -, _, -, rfl⟩ := h
      exact ⟨rfl, rfl⟩
    · simp only [bind_ok, pure_ok] at h
      obtain ⟨_, -, _, -, rfl⟩ := h
      exact ⟨rfl, rfl⟩
  have hBound : (snapshot.item "dimensions").bind Value.elements = .ok listed := by
    rw [hDimensions]
    exact hListed
  have hCodes := codedDimensions_ok hCoded
  have hSuggestions := hCollected
  simp only [suggestions, bind_ok, native_ok] at hSuggestions
  obtain ⟨found, hReported, reported, hElements, -⟩ := hSuggestions
  refine ⟨reported, listed, coded, selected, collected, projected, ?_, hBound, hCodes,
    selectedDimensions_ok hCodes.distinct hSelected, suggestions_sound hReported hElements hBound hCodes hCollected,
    hProjected, hFacts.1, hFacts.2⟩
  rw [hReported]
  exact hElements

/-- The facts of every report that is assembled are closed. -/
theorem scaleFacts_closed {snapshot : Value} {policy : InputPolicy} {facts : ScaleFacts}
    (h : scaleFacts snapshot policy = .ok facts) : ∃ reported listed,
      (snapshot.item "suggestions").bind Value.elements = .ok reported ∧
      (snapshot.item "dimensions").bind Value.elements = .ok listed ∧ facts.Closed policy reported listed := by
  obtain ⟨reported, listed, coded, selected, collected, projected, hParts⟩ := scaleFacts_parts h
  exact ⟨reported, listed, hParts.suggestionsRead, hParts.dimensionsRead, closed_of_selected hParts.codes
    hParts.selection hParts.sound hParts.projection hParts.dimensions hParts.suggestions⟩

end ReportInput

end QsAi
