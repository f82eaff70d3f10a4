import QsAi.Interpretation.SafetyPhrases

/-! The verdict of the safety check on texts that differ in blanks and letter case.
It stays the same exactly when no string can be spelled so that a rule is broken
before the names of the members break one. -/
namespace QsAi

open Guarded PyJson

namespace OutputSafety

variable (library : Lowering)

/-! Phrases in a document. -/

theorem infix_quoted {p value : Text} (h : Sayable p) :
    p <:+: normalize library (quoted value) ↔ p <:+: normalize library (escapeText value) := by
  rw [quoted, normalize_fixed library rfl, normalize_append, normalize_allFixed library (show [34].all Fixed = true from rfl),
    infix_fixed h rfl, infix_separator (h.not_mem rfl) h.ne_nil, List.infix_nil]
  exact or_iff_left h.ne_nil

theorem not_infix_number {p value : Text} (h : Sayable p) (hNumber : ∀ c ∈ value, numberCode c = true) :
    ¬ p <:+: normalize library value := by
  have hFixed : normalize library value = value := by
    apply normalize_allFixed
    rw [List.all_eq_true]
    intro c hMem
    have hCode := hNumber c hMem
    simp only [numberCode, isDigit, Bool.or_eq_true, Bool.and_eq_true, decide_eq_true_eq, beq_iff_eq] at hCode
    have hAll : ∀ c < 102, (48 ≤ c ∧ c ≤ 57 ∨ c = 43 ∨ c = 45 ∨ c = 46 ∨ c = 101) → Fixed c = true := by decide
    exact hAll c (by omega) (by omega)
  rw [hFixed]
  intro hInfix
  obtain ⟨c, hMem, hOther⟩ := h.notNumber
  rw [hNumber c (hInfix.subset hMem)] at hOther
  cases hOther

theorem not_infix_word {p value : Text} (h : Sayable p) {word : String}
    (hWord : word ∈ ["null", "true", "false", "infinity", "-infinity"]) (hAscii : ∀ c ∈ value, c < 128)
    (hSame : skeleton value = text word) : ¬ p <:+: normalize library value := by
  rw [normalize_plain library fun c hMem => .inl (hAscii c hMem), hSame]
  exact h.notWord word hWord

/-- The parts of a text around a separator. -/
theorem infix_parts {p left right : Text} (h : Sayable p) {separator : Nat} (hFixed : Fixed separator = true)
    (hOther : isPhraseCode separator = false) : p <:+: normalize library (left ++ separator :: right) ↔
      p <:+: normalize library left ∨ p <:+: normalize library right := by
  rw [normalize_append, normalize_fixed library hFixed]
  exact infix_separator (h.not_mem hOther) h.ne_nil

theorem infix_behind {p right : Text} (h : Sayable p) {separator : Nat} (hFixed : Fixed separator = true)
    (hOther : isPhraseCode separator = false) : p <:+: normalize library (separator :: right) ↔ p <:+: normalize library right := by
  rw [normalize_fixed library hFixed]
  exact infix_fixed h hOther

theorem not_infix_nil {p : Text} (h : Sayable p) : ¬ p <:+: normalize library [] :=
  fun hInfix => h.ne_nil (List.infix_nil.mp hInfix)

theorem compact_item : compact.item = [44] := rfl

theorem compact_key : compact.key = [58] := rfl

mutual

/-- A phrase is in the text of a document exactly when it is in the escaped text
of one of its strings. -/
theorem infix_valueText {p : Text} (h : Sayable p) : ∀ value : Value,
    p <:+: normalize library (valueText compact value) ↔ ∃ found ∈ texts true value, p <:+: normalize library (escapeText found)
  | .null => by
      simp only [valueText, texts, List.not_mem_nil, false_and, exists_false, iff_false]
      exact not_infix_word library h (show "null" ∈ _ by decide) (by decide) (by decide)
  | .bool value => by
      simp only [valueText, texts, List.not_mem_nil, false_and, exists_false, iff_false]
      cases value
      · exact not_infix_word library h (show "false" ∈ _ by decide) (by decide) (by decide)
      · exact not_infix_word library h (show "true" ∈ _ by decide) (by decide) (by decide)
  | .int value => by
      simp only [valueText, texts, List.not_mem_nil, false_and, exists_false, iff_false]
      exact not_infix_number library h (numberCode_intText value)
  | .float value => by
      simp only [valueText, texts, List.not_mem_nil, false_and, exists_false, iff_false]
      cases value with
      | finite value => exact not_infix_number library h (numberCode_floatText value)
      | infinite negative =>
          cases negative
          · exact not_infix_word library h (show "infinity" ∈ _ by decide) (by decide) (by decide)
          · exact not_infix_word library h (show "-infinity" ∈ _ by decide) (by decide) (by decide)
  | .string value => by
      simp only [valueText, texts, List.mem_singleton, exists_eq_left]
      exact infix_quoted library h
  | .array items => by
      rw [valueText, texts, infix_behind library h rfl rfl, infix_parts library h rfl rfl, infix_itemsText h items]
      exact or_iff_left (not_infix_nil library h)
  | .object fields => by
      rw [valueText, texts, infix_behind library h rfl rfl, infix_parts library h rfl rfl, infix_fieldsText h fields]
      exact or_iff_left (not_infix_nil library h)
termination_by structural value => value

theorem infix_itemsText {p : Text} (h : Sayable p) : ∀ items : List Value,
    p <:+: normalize library (itemsText compact items) ↔
      ∃ found ∈ textsOfItems true items, p <:+: normalize library (escapeText found)
  | [] => by
      rw [itemsText, textsOfItems]
      exact iff_of_false (not_infix_nil library h) (by simp)
  | [item] => by
      rw [itemsText, textsOfItems, textsOfItems, List.append_nil]
      exact infix_valueText h item
  | item :: next :: rest => by
      have hRest := infix_itemsText h (next :: rest)
      rw [itemsText, textsOfItems, compact_item, List.cons_append, List.nil_append, infix_parts library h rfl rfl,
        infix_valueText h item, hRest]
      simp only [List.mem_append, or_and_right, exists_or]
termination_by structural items => items

theorem infix_fieldsText {p : Text} (h : Sayable p) : ∀ fields : List (Text × Value),
    p <:+: normalize library (fieldsText compact fields) ↔
      ∃ found ∈ textsOfFields true fields, p <:+: normalize library (escapeText found)
  | [] => by
      rw [fieldsText, textsOfFields]
      exact iff_of_false (not_infix_nil library h) (by simp)
  | [(name, value)] => by
      rw [fieldsText, textsOfFields, textsOfFields, List.append_nil, compact_key, List.cons_append, List.nil_append,
        infix_parts library h rfl rfl, infix_quoted library h, infix_valueText h value, if_pos rfl]
      simp only [List.cons_append, List.nil_append, List.mem_cons, or_and_right, exists_or, exists_eq_left]
  | (name, value) :: next :: rest => by
      have hRest := infix_fieldsText h (next :: rest)
      rw [fieldsText, textsOfFields, compact_key, compact_item, List.cons_append, List.nil_append,
        infix_parts library h rfl rfl, infix_quoted library h, List.cons_append, List.nil_append, infix_parts library h rfl rfl,
        infix_valueText h value, hRest, if_pos rfl]
      simp only [List.cons_append, List.nil_append, List.mem_cons, List.mem_append, or_and_right, exists_or, exists_eq_left]
termination_by structural fields => fields

end

/-! Rules. -/

abbrev Rule := String × List String

/-- The written string breaks the rule. -/
def Breaks (rule : Rule) (value : Text) : Prop :=
  ∃ phrase ∈ rule.2, normalize library (text phrase) <:+: normalize library (escapeText value)

/-- With other blanks the string breaks the rule. -/
def Threatens (rule : Rule) (value : Text) : Prop := ∃ phrase ∈ rule.2, Reaches library (normalize library (text phrase)) value

theorem contains_iff {value : Text} {concepts : List String} :
    contains library value concepts = true ↔ ∃ concept ∈ concepts, normalize library (text concept) <:+: value := by
  simp [contains]

/-- The document breaks a rule by a string value or by the name of a member. -/
theorem document_breaks {rule : Rule} (hRule : rule ∈ rules) (content : Value) :
    contains library (normalize library (valueText compact content)) rule.2 = true ↔
      (∃ found ∈ texts false content, Breaks library rule found) ∨ ∃ name ∈ memberNames content, Breaks library rule name := by
  rw [contains_iff]
  constructor
  · rintro ⟨phrase, hPhrase, hInfix⟩
    obtain ⟨found, hFound, hSays⟩ := (infix_valueText library (sayable library hRule hPhrase) content).mp hInfix
    exact ((mem_texts content).mp hFound).imp (fun hText => ⟨found, hText, phrase, hPhrase, hSays⟩)
      fun hName => ⟨found, hName, phrase, hPhrase, hSays⟩
  · intro hBroken
    obtain ⟨found, hFound, phrase, hPhrase, hSays⟩ : ∃ found ∈ texts true content, Breaks library rule found := by
      rcases hBroken with ⟨found, hText, hBreaks⟩ | ⟨name, hName, hBreaks⟩
      · exact ⟨found, (mem_texts content).mpr (.inl hText), hBreaks⟩
      · exact ⟨name, (mem_texts content).mpr (.inr hName), hBreaks⟩
    exact ⟨phrase, hPhrase, (infix_valueText library (sayable library hRule hPhrase) content).mpr ⟨found, hFound, hSays⟩⟩

/-- The contents are the same but for blanks and letter case in string values. -/
def Respelled (content other : Value) : Prop := mapTexts skeleton content = mapTexts skeleton other

theorem Respelled.names {content other : Value} (h : Respelled content other) : memberNames content = memberNames other := by
  have hSame := congrArg memberNames h
  rwa [memberNames_mapTexts, memberNames_mapTexts] at hSame

/-- Every string value has a counterpart with the same words. -/
theorem Respelled.counterpart {content other : Value} (h : Respelled content other) {found : Text}
    (hFound : found ∈ texts false other) : ∃ source ∈ texts false content, skeleton source = skeleton found := by
  have hSame := congrArg (texts false) h
  rw [texts_mapTexts, texts_mapTexts] at hSame
  have hMem : skeleton found ∈ (texts false content).map skeleton := hSame ▸ List.mem_map_of_mem hFound
  exact List.mem_map.mp hMem

theorem respelled_mapTexts {f : Text → Text} (h : ∀ value, skeleton (f value) = skeleton value) (content : Value) :
    Respelled content (mapTexts f content) := by
  rw [Respelled, mapTexts_mapTexts, show skeleton ∘ f = skeleton from funext h]

theorem reaches_congr {p a b : Text} (h : skeleton a = skeleton b) : Reaches library p a ↔ Reaches library p b := by
  rw [Reaches, Reaches, normalize_congr library h]

/-- A string that breaks a rule threatens it, however it is spelled. -/
theorem threatens_of_breaks {rule : Rule} (hRule : rule ∈ rules) {source found : Text} (hSame : skeleton source = skeleton found)
    (h : Breaks library rule found) : Threatens library rule source := by
  obtain ⟨phrase, hPhrase, hSays⟩ := h
  exact ⟨phrase, hPhrase, (reaches_congr library hSame).mpr (reaches_of_verdict library (sayable library hRule hPhrase) hSays)⟩

/-! Limitations. -/

theorem item_mapTexts (f : Text → Text) (value : Value) (name : String) :
    (mapTexts f value).item name = (value.item name).map (mapTexts f) := by
  cases value with
  | object fields =>
      rw [mapTexts, mapFields_eq, Value.item, Value.item]
      induction fields with
      | nil => rfl
      | cons field fields ih =>
          rw [List.map_cons, List.lookup_cons, List.lookup_cons]
          by_cases hName : text name = field.1
          · rw [hName, beq_self_eq_true]
            rfl
          · rw [beq_false_of_ne hName]
            exact ih
  | _ => rfl

theorem normalize_intercalate (words : List Text) :
    normalize library ([32].intercalate words) = words.flatMap (normalize library) := by
  induction words with
  | nil => rfl
  | cons word words ih =>
      cases words with
      | nil => simp [List.intercalate]
      | cons next words =>
          rw [List.intercalate_cons_cons, normalize_append, normalize_append, ih, normalize_dropped library (by decide),
            normalize_nil, List.append_nil]
          rfl

/-- The words of a list of strings. -/
def readWord (item : Value) : Except Fault Text :=
  match item with
  | .string found => .ok found
  | _ => .error .type

theorem mapM_readWord (f : Text → Text) (items : List Value) :
    (items.map (mapTexts f)).mapM readWord = (items.mapM readWord).map (List.map f) := by
  induction items with
  | nil => rfl
  | cons item items ih =>
      rw [List.map_cons, List.mapM_cons, List.mapM_cons, ih]
      cases item with
      | string found =>
          show ((items.mapM readWord).map (List.map f) >>= fun rest => pure (f found :: rest)) =
            (items.mapM readWord >>= fun rest => pure (found :: rest)).map (List.map f)
          cases items.mapM readWord <;> rfl
      | _ => rfl

theorem mapM_strings (words : List Text) : (words.map Value.string).mapM readWord = .ok words := by
  induction words with
  | nil => rfl
  | cons word words ih =>
      rw [List.map_cons, List.mapM_cons, ih]
      rfl

theorem flatMap_singles (value : Text) : (value.map fun c => [c]).flatMap (normalize library) = normalize library value := by
  induction value with
  | nil => rfl
  | cons c value ih =>
      rw [List.map_cons, List.flatMap_cons, ih, ← normalize_append, List.singleton_append]

/-- The words behind a value, as far as they are normalised. -/
theorem words_skeleton (value : Value) :
    (((mapTexts skeleton value).elements).bind fun items => items.mapM readWord).map (·.flatMap (normalize library)) =
      ((value.elements).bind fun items => items.mapM readWord).map (·.flatMap (normalize library)) := by
  cases value with
  | array items =>
      rw [mapTexts, mapItems_eq]
      simp only [Value.elements, Except.bind]
      rw [mapM_readWord]
      cases items.mapM readWord with
      | error fault => rfl
      | ok words =>
          simp only [Except.map, List.flatMap_map]
          rw [show (fun word => normalize library (skeleton word)) = normalize library from
            funext fun word => normalize_congr library (skeleton_skeleton word)]
  | string found =>
      have hSingles : ∀ word : Text, ((Value.string word).elements.bind fun items => items.mapM readWord) =
          .ok (word.map fun c => [c]) := by
        intro word
        rw [Value.elements, Except.bind, ← mapM_strings, List.map_map]
        rfl
      rw [mapTexts, hSingles, hSingles]
      simp only [Except.map]
      rw [flatMap_singles, flatMap_singles, normalize_congr library (skeleton_skeleton found)]
  | object fields =>
      rw [mapTexts, mapFields_eq]
      simp only [Value.elements, List.map_map]
      rfl
  | _ => rfl

theorem joinedLimitations_eq (content : Value) : (joinedLimitations content).map (normalize library) =
    (((content.item "limitations").bind Value.elements).bind fun items => items.mapM readWord).map
      (·.flatMap (normalize library)) := by
  unfold joinedLimitations
  cases content.item "limitations" with
  | error fault => rfl
  | ok value =>
      simp only [bind, Except.bind]
      cases value.elements with
      | error fault => rfl
      | ok items =>
          show ((items.mapM readWord).bind fun words => pure ([32].intercalate words)).map (normalize library) =
            (items.mapM readWord).map (·.flatMap (normalize library))
          cases items.mapM readWord with
          | error fault => rfl
          | ok words => exact congrArg Except.ok (normalize_intercalate library words)

/-- Limitations with the same words are normalised to the same text. -/
theorem limitations_respelled {content other : Value} (h : Respelled content other) :
    (joinedLimitations content).map (normalize library) = (joinedLimitations other).map (normalize library) := by
  have hSkeleton : ∀ value : Value, (joinedLimitations (mapTexts skeleton value)).map (normalize library) =
      (joinedLimitations value).map (normalize library) := by
    intro value
    rw [joinedLimitations_eq, joinedLimitations_eq, item_mapTexts]
    cases value.item "limitations" with
    | error fault => rfl
    | ok found => exact words_skeleton library found
  rw [← hSkeleton content, h, hSkeleton other]

/-! Verdicts. -/

/-- What is said of the limitations when no rule is broken. -/
def limitationVerdict (limitations : Except Fault Text) : OutputCheck Unit := do
  let limitations ← native limitations
  if limitationsComplete library limitations then pure () else invalidOutput "limitations_incomplete"

theorem verdict_eq (content : Value) : verdict library content =
    match brokenRule library (normalize library (valueText compact content)) with
    | some rule => invalidOutput ("forbidden_" ++ rule.1)
    | none => limitationVerdict library ((joinedLimitations content).map (normalize library)) := by
  unfold verdict limitationVerdict
  cases brokenRule library (normalize library (valueText compact content)) with
  | some rule => rfl
  | none => cases joinedLimitations content <;> rfl

/-- The limitations alone never break a rule. -/
theorem limitationVerdict_other (limitations : Except Fault Text) {rule : Rule} (hRule : rule ∈ rules) :
    limitationVerdict library limitations ≠ invalidOutput ("forbidden_" ++ rule.1) := by
  have hCode : ∀ rule ∈ rules, "limitations_incomplete" ≠ "forbidden_" ++ rule.1 := by decide
  unfold limitationVerdict
  cases limitations with
  | error fault => exact fun h => by cases h
  | ok words =>
      show (if limitationsComplete library words then pure () else invalidOutput "limitations_incomplete") ≠ _
      split
      · exact fun h => by cases h
      · intro h
        exact hCode rule hRule (Failure.refused.inj (Except.error.inj h))

theorem rule_of_code {a b : Rule} (ha : a ∈ rules) (hb : b ∈ rules)
    (h : (invalidOutput ("forbidden_" ++ a.1) : OutputCheck Unit) = invalidOutput ("forbidden_" ++ b.1)) : a = b := by
  have hCodes : ∀ a ∈ rules, ∀ b ∈ rules, "forbidden_" ++ a.1 = "forbidden_" ++ b.1 → a = b := by decide
  exact hCodes a ha b hb (Failure.refused.inj (Except.error.inj h))

/-- Two searches agree when whatever the second finds the first finds, and the
first finds nothing earlier. -/
theorem find_agrees {α : Type} {items : List α} {p q : α → Bool} (hMore : ∀ item ∈ items, q item = true → p item = true)
    (hEarlier : ∀ front item back, items = front ++ item :: back → p item = true → ∃ found ∈ front ++ [item], q found = true) :
    items.find? p = items.find? q := by
  cases hFind : items.find? q with
  | none =>
      rw [List.find?_eq_none] at hFind ⊢
      intro item hMem hItem
      obtain ⟨front, back, rfl⟩ := List.append_of_mem hMem
      obtain ⟨found, hFound, hHit⟩ := hEarlier front item back rfl hItem
      refine hFind found ?_ hHit
      rcases List.mem_append.mp hFound with hFound | hFound
      · exact List.mem_append_left _ hFound
      · exact List.mem_append_right _ (List.mem_singleton.mp hFound ▸ List.mem_cons_self)
  | some item =>
      obtain ⟨hItem, front, back, rfl, hFront⟩ := List.find?_eq_some_iff_append.mp hFind
      refine List.find?_eq_some_iff_append.mpr ⟨hMore item (by simp) hItem, front, back, rfl, fun earlier hMem => ?_⟩
      rw [Bool.not_eq_true', Bool.eq_false_iff]
      intro hEarly
      obtain ⟨first, rest, rfl⟩ := List.append_of_mem hMem
      obtain ⟨found, hFound, hHit⟩ := hEarlier first earlier (rest ++ item :: back) (by simp) hEarly
      have hIn : found ∈ first ++ earlier :: rest := by
        rcases List.mem_append.mp hFound with hFound | hFound
        · exact List.mem_append_left _ hFound
        · exact List.mem_append_right _ (List.mem_singleton.mp hFound ▸ List.mem_cons_self)
      have hNone := hFront found hIn
      rw [hHit] at hNone
      cases hNone

/-- Whether the name of a member breaks the rule. -/
def namesBreak (content : Value) (rule : Rule) : Bool :=
  (memberNames content).any fun name => contains library (normalize library (escapeText name)) rule.2

theorem namesBreak_iff {content : Value} {rule : Rule} :
    namesBreak library content rule = true ↔ ∃ name ∈ memberNames content, Breaks library rule name := by
  simp only [namesBreak, List.any_eq_true, contains_iff, Breaks]

/-- No string value threatens a rule before the names break one. -/
def Settled (content : Value) : Prop :=
  ∀ front rule back, rules = front ++ rule :: back → (∃ found ∈ texts false content, Threatens library rule found) →
    ∃ earlier ∈ front ++ [rule], ∃ name ∈ memberNames content, Breaks library earlier name

/-- The verdict is the same on every spelling, and a string value that says a
phrase when its blanks are left out is refused. -/
def Steady (content : Value) : Prop :=
  (∀ other, Respelled content other → verdict library other = verdict library content) ∧
  ((∃ found ∈ texts false content, ∃ rule ∈ rules, ∃ phrase ∈ rule.2, normalize library (text phrase) <:+: normalize library found) →
    ∃ code, verdict library content = invalidOutput code)

/-- In a settled content the names alone decide which rule is broken. -/
theorem Settled.brokenRule {content other : Value} (h : Settled library content) (hSame : Respelled content other) :
    brokenRule library (normalize library (valueText compact other)) = rules.find? (namesBreak library content) := by
  refine find_agrees (fun rule hRule hNames => ?_) fun front rule back hSplit hBroken => ?_
  · rw [document_breaks library hRule, ← hSame.names]
    exact .inr ((namesBreak_iff library).mp hNames)
  · have hRule : rule ∈ rules := by
      rw [hSplit]
      simp
    rcases (document_breaks library hRule other).mp hBroken with ⟨found, hFound, hBreaks⟩ | ⟨name, hName, hBreaks⟩
    · obtain ⟨source, hSource, hWords⟩ := hSame.counterpart hFound
      obtain ⟨earlier, hEarlier, hNames⟩ := h front rule back hSplit
        ⟨source, hSource, threatens_of_breaks library hRule hWords hBreaks⟩
      exact ⟨earlier, hEarlier, (namesBreak_iff library).mpr hNames⟩
    · rw [← hSame.names] at hName
      exact ⟨rule, by simp, (namesBreak_iff library).mpr ⟨name, hName, hBreaks⟩⟩

theorem steady_of_settled {content : Value} (h : Settled library content) : Steady library content := by
  refine ⟨fun other hSame => ?_, ?_⟩
  · rw [verdict_eq, verdict_eq, h.brokenRule library hSame, h.brokenRule library rfl, limitations_respelled library hSame]
  · rintro ⟨found, hFound, rule, hRule, phrase, hPhrase, hInfix⟩
    obtain ⟨front, back, hSplit⟩ := List.append_of_mem hRule
    obtain ⟨earlier, hEarlier, hNames⟩ := h front rule back hSplit ⟨found, hFound, phrase, hPhrase, .inl hInfix⟩
    have hMem : earlier ∈ rules := by
      rw [hSplit]
      rcases List.mem_append.mp hEarlier with hIn | hIn
      · exact List.mem_append_left _ hIn
      · exact List.mem_append_right _ (List.mem_singleton.mp hIn ▸ List.mem_cons_self)
    rw [verdict_eq, h.brokenRule library rfl]
    cases hFind : rules.find? (namesBreak library content) with
    | none => exact absurd ((namesBreak_iff library).mpr hNames) (List.find?_eq_none.mp hFind earlier hMem)
    | some broken => exact ⟨_, rfl⟩

/-- Spelled apart, only the names break rules. -/
theorem brokenRule_spread (content : Value) :
    brokenRule library (normalize library (valueText compact (mapTexts spread content))) =
      rules.find? (namesBreak library content) := by
  have hSilent : ∀ {rule : Rule}, rule ∈ rules →
      (contains library (normalize library (valueText compact (mapTexts spread content))) rule.2 = true ↔
        namesBreak library content rule = true) := by
    intro rule hRule
    rw [document_breaks library hRule, namesBreak_iff, memberNames_mapTexts]
    refine or_iff_right ?_
    rintro ⟨found, hFound, phrase, hPhrase, hSays⟩
    rw [texts_mapTexts] at hFound
    obtain ⟨source, -, rfl⟩ := List.mem_map.mp hFound
    exact spread_silent library (sayable library hRule hPhrase) hSays
  refine find_agrees (fun rule hRule hNames => (hSilent hRule).mpr hNames) fun front rule back hSplit hBroken => ?_
  have hRule : rule ∈ rules := by
    rw [hSplit]
    simp
  exact ⟨rule, by simp, (hSilent hRule).mp hBroken⟩

/-- A threat that no name forestalls makes two spellings differ. -/
theorem settled_of_steady {content : Value} (h : Steady library content) : Settled library content := by
  rintro front rule back hSplit ⟨source, hSource, phrase, hPhrase, hReaches⟩
  by_contra hNames
  have hRule : rule ∈ rules := by
    rw [hSplit]
    simp
  obtain ⟨other, hWords, hSays⟩ := says_of_reaches library (sayable library hRule hPhrase) hReaches
  -- One spelling says the phrase, another one says no phrase at all.
  have hLoud : Respelled content (mapTexts (fun found => if found = source then other else found) content) :=
    respelled_mapTexts (fun found => by split <;> simp_all) content
  have hQuiet : Respelled content (mapTexts spread content) := respelled_mapTexts skeleton_spread content
  have hVerdict := (h.1 _ hLoud).trans (h.1 _ hQuiet).symm
  have hBroken : contains library (normalize library (valueText compact
      (mapTexts (fun found => if found = source then other else found) content))) rule.2 = true := by
    rw [document_breaks library hRule, texts_mapTexts]
    exact .inl ⟨other, List.mem_map.mpr ⟨source, hSource, if_pos rfl⟩, phrase, hPhrase, hSays⟩
  obtain ⟨broken, hFind, hEarly⟩ : ∃ broken, brokenRule library (normalize library (valueText compact
      (mapTexts (fun found => if found = source then other else found) content))) = some broken ∧ broken ∈ front ++ [rule] := by
    unfold brokenRule
    rw [hSplit, List.find?_append]
    cases hFront : front.find? fun rule => contains library _ rule.2 with
    | some broken => exact ⟨broken, rfl, List.mem_append_left _ (List.mem_of_find?_eq_some hFront)⟩
    | none => exact ⟨rule, by rw [Option.none_or, List.find?_cons, hBroken], List.mem_append_right _ List.mem_cons_self⟩
  have hBrokenMem : broken ∈ rules := by
    rw [hSplit]
    rcases List.mem_append.mp hEarly with hIn | hIn
    · exact List.mem_append_left _ hIn
    · exact List.mem_append_right _ (List.mem_singleton.mp hIn ▸ List.mem_cons_self)
  rw [verdict_eq, verdict_eq, hFind, brokenRule_spread] at hVerdict
  cases hQuietFind : rules.find? (namesBreak library content) with
  | none =>
      rw [hQuietFind] at hVerdict
      exact limitationVerdict_other library _ hBrokenMem hVerdict.symm
  | some quiet =>
      rw [hQuietFind] at hVerdict
      have hSame := rule_of_code hBrokenMem (List.mem_of_find?_eq_some hQuietFind) hVerdict
      subst hSame
      exact hNames ⟨broken, hEarly, (namesBreak_iff library).mp (List.find?_some hQuietFind)⟩

/-- The verdict ignores blanks and letter case exactly when no string value can
be spelled so that it breaks a rule before the names do. -/
theorem verdict_steady_iff (content : Value) : Steady library content ↔ Settled library content :=
  ⟨settled_of_steady library, steady_of_settled library⟩

theorem asciiLower_beyond (c : Nat) (hHigh : 128 ≤ c) (hLow : asciiLower c < 128) :
    97 ≤ asciiLower c ∧ asciiLower c ≤ 122 := by
  unfold asciiLower at hLow
  split at hLow <;> omega

theorem asciiLower_ideograph (c : Nat) (hLow : 0x4E00 ≤ c) (_ : c ≤ 0x9FFF) : asciiLower c = c := by
  rw [asciiLower, if_neg (by omega)]

/-- Small letters for ASCII, everything else as it is. -/
def asciiLowering : Lowering := ⟨asciiLower, fun _ _ => rfl, asciiLower_beyond, asciiLower_ideograph⟩

/-- An output in the form of the schema with the given summary. -/
def summaryContent (summary : Text) : Value :=
  .object [(text "schema_version", .string (text "ai-explanation-output/v1")), (text "summary", .string summary),
    (text "integrated_insights", .array [.object [(text "kind", .string (text "combined_strength")),
      (text "title", .string (text "t")), (text "content", .string (text "c")), (text "why_it_matters", .string (text "w")),
      (text "evidence_refs", .array [
        .object [(text "kind", .string (text "dimension")), (text "ref", .string (text "dimension:A"))],
        .object [(text "kind", .string (text "dimension")), (text "ref", .string (text "dimension:B"))]])]]),
    (text "suggestions", .array [.object [(text "origin", .string (text "generated_low_risk")),
      (text "category", .string (text "daily")), (text "title", .string (text "t")), (text "goal", .string (text "g")),
      (text "actions", .array [.string (text "a")]), (text "rationale", .string (text "r")),
      (text "evidence_refs", .array [.object [(text "kind", .string (text "overall_result")),
        (text "ref", .string (text "overall_result"))]]),
      (text "source_suggestion_refs", .array []), (text "caution", .string [])]]),
    (text "limitations", .array [.string (text "本次测评不构成诊断，不构成确定性判断。")])]

/-- A line break inside a phrase hides it from the check. -/
theorem phrase_hidden : ¬ ∀ (library : Lowering) (content : Value) (document : ReportOutput.Document),
    ReportOutput.readDocument content = some document → Steady library content := by
  intro h
  obtain ⟨document, hDocument⟩ := Option.isSome_iff_exists.mp
    (show (ReportOutput.readDocument (summaryContent [0x786E, 10, 0x8BCA])).isSome = true by decide)
  obtain ⟨code, hRefused⟩ := (h asciiLowering _ _ hDocument).2 ⟨[0x786E, 10, 0x8BCA], by decide,
    ("diagnosis", ["诊断为", "确诊", "证明患有", "diagnosed with", "you have a disorder"]), by decide, "确诊",
    by decide, by decide⟩
  have hAccepted : (verdict asciiLowering (summaryContent [0x786E, 10, 0x8BCA])).toOption.isSome = true := by decide +kernel
  rw [hRefused] at hAccepted
  cases hAccepted

end OutputSafety

end QsAi
