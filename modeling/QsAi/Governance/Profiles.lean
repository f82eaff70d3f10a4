import QsAi.Foundation.PercentEncoding
import QsAi.Foundation.StrictModel
import QsAi.Text

/-! Profile definitions. A definition is a strict model in one of three versions;
its fingerprint is taken over a canonical text that is also safe inside a web page. -/
namespace QsAi

open Guarded PyJson PercentEncoding

namespace Profiles

/-! Texts. -/

def isLower (c : Nat) : Bool := 97 ≤ c && c ≤ 122

def isAlnum (c : Nat) : Bool := isLower c || (65 ≤ c && c ≤ 90) || PyJson.isDigit c

/-- A letter or digit, then at most 127 letters, digits, dots, underscores, slashes or
dashes. -/
def isVersion : Text → Bool
  | first :: rest =>
      isAlnum first && decide (rest.length ≤ 127) && rest.all fun c => isAlnum c || c == 46 || c == 95 || c == 47 || c == 45
  | [] => false

/-- A small letter, then at most so many small letters, digits, dots, underscores or
dashes. -/
def isCode (limit : Nat) : Text → Bool
  | first :: rest =>
      isLower first && decide (rest.length ≤ limit) &&
        rest.all fun c => isLower c || PyJson.isDigit c || c == 46 || c == 95 || c == 45
  | [] => false

/-- A string of one to 255 characters. -/
def isShort (word : Text) : Bool := decide (1 ≤ word.length) && decide (word.length ≤ 255) && !word.any isSurrogate

/-- The length of the UTF-8 of a text, unless it has none. -/
def encodedLength (word : Text) : Option Nat := (utf8Encode word).map List.length

def version : Field := .string isVersion

def route : Field := .string (isCode 63)

def short : Field := .string isShort

def literal (words : List String) : Field := .string fun word => words.any fun found => text found == word

/-! Values of an accepted model. -/

def member (value : Value) (name : String) : Value := (value.item name).toOption.getD .null

def isNull : Value → Bool
  | .null => true
  | _ => false

def isTrue : Value → Bool
  | .bool value => value
  | _ => false

def number : Value → Int
  | .int value => value
  | _ => 0

def wordOf (value : Value) : Text := value.asText.getD []

def items : Value → List Value
  | .array values => values
  | _ => []

def texts (value : Value) : List Text := (items value).filterMap Value.asText

/-! Policies. -/

def uniqueList (words : List Text) : Bool :=
  (words.all fun word => stripText word != [] && (encodedLength word).any (· ≤ 255)) && decide (words.map stripText).Nodup

/-- The codes of each list are not blank, not too long and all different. -/
def uniqueLists : Value → Bool
  | .object fields => fields.all fun field => uniqueList (texts field.2)
  | _ => true

def policyModel (fields : List (String × Field)) (check : Value → Bool) : Field :=
  .model fields fun value => uniqueLists value && check value

def selector : Field :=
  policyModel
    [("audience", literal ["participant"]), ("model_kind", literal ["scale"]), ("decision_kind", literal ["score_range"]),
     ("model_code", .optionalString isShort), ("model_version", .optionalString isVersion)]
    fun value =>
      (isNull (member value "model_version") || !isNull (member value "model_code")) &&
        (member value "model_code").asText.all fun code => stripText code != []

def eligibility : Field :=
  policyModel
    [("min_eligible_dimensions", .number 2 50), ("max_input_dimensions", .number 2 50),
     ("eligible_dimension_codes", .items short 0 (some 50)), ("excluded_dimension_codes", .items short 0 (some 50)),
     ("on_dimension_overflow", literal ["reject"])]
    fun value =>
      decide (number (member value "min_eligible_dimensions") ≤ number (member value "max_input_dimensions")) &&
        ((texts (member value "eligible_dimension_codes")).map stripText).all fun code =>
          !((texts (member value "excluded_dimension_codes")).map stripText).contains code

def hierarchy : Field := policyModel [("allow_parent_child_in_same_insight", .flag)] fun _ => true

def input : Field :=
  policyModel
    [("context_scope", literal ["current_assessment_only"]), ("include_norm_context", .flag), ("include_model_result", .flag),
     ("allowed_focus_areas", .items route 0 (some 20)), ("hierarchy_policy", hierarchy)]
    fun _ => true

def insight : Field :=
  policyModel
    [("allowed_kinds",
      .items (literal ["reinforcing_pattern", "contrasting_pattern", "combined_strength", "combined_attention",
        "context_dependent_pattern"]) 1 none),
     ("min_items", .number 1 8), ("max_items", .number 1 8), ("min_dimension_refs_per_item", .number 2 6),
     ("max_dimension_refs_per_item", .number 2 6), ("allow_causal_claims", .flag)]
    fun value =>
      decide (number (member value "min_items") ≤ number (member value "max_items")) &&
        decide (number (member value "min_dimension_refs_per_item") ≤ number (member value "max_dimension_refs_per_item")) &&
          !isTrue (member value "allow_causal_claims")

def suggestion : Field :=
  policyModel
    [("allowed_origins", .items (literal ["standard_derived", "generated_low_risk"]) 1 none),
     ("allowed_categories", .items route 1 none), ("min_items", .number 1 8), ("max_items", .number 1 8),
     ("max_actions_per_item", .number 1 5), ("require_evidence_refs", .flag),
     ("require_standard_refs_for_standard_derived", .flag)]
    fun value =>
      decide (number (member value "min_items") ≤ number (member value "max_items")) &&
        isTrue (member value "require_evidence_refs") && isTrue (member value "require_standard_refs_for_standard_derived")

def requiredClaims : List Text :=
  ["diagnosis", "causality", "medication", "treatment_plan", "risk_reclassification", "identity_inference",
   "deterministic_future_prediction"].map text

def safety : Field :=
  policyModel
    [("policy_version", version), ("forbidden_claims", .items (.string fun _ => true) 0 none), ("disclaimer_version", version)]
    fun value =>
      decide (texts (member value "forbidden_claims") ⊆ requiredClaims ∧ requiredClaims ⊆ texts (member value "forbidden_claims"))

/-- The generation policy of a version, by the schemas of its input and its output. -/
def generationPolicy (inputs outputs : List String) : Field :=
  policyModel
    [("prompt_template_id", short), ("prompt_version", version), ("provider_route", route),
     ("output_schema_version", literal outputs), ("max_output_characters", .number 512 20000),
     ("input_schema_version", literal inputs)]
    fun value => stripText (wordOf (member value "prompt_template_id")) != []

def generation : Field := generationPolicy ["ai-explanation-input/v1"] ["ai-explanation-output/v1"]

def mbtiGeneration : Field := generationPolicy ["ai-explanation-input/v2"] ["ai-explanation-output/v1"]

def mbtiThematicGeneration : Field :=
  generationPolicy ["ai-explanation-input/v3", "ai-explanation-input/v4"] ["ai-explanation-output/v2"]

/-! Scenes. -/

def mbtiModel : Text := text "MBTI_OEJTS"

def mbtiVersion : Text := text "v64-report-202608-v1"

/-- Each axis with its poles. -/
def mbtiAxes : List (String × List String) := [("EI", ["I", "E"]), ("SN", ["S", "N"]), ("TF", ["F", "T"]), ("JP", ["J", "P"])]

/-- The input schema of the thematic contract of a model, for the models that have one. -/
def mbtiModelContract (code version : Text) : Option Text :=
  if code = mbtiModel ∧ version = mbtiVersion then some (text "ai-explanation-input/v3")
  else if code = text "MBTI_FC_93" ∧ version = text "v55-report-202608-v1" then some (text "ai-explanation-input/v4")
  else none

/-- The contract of the model that a value names. -/
def contractOf (value : Value) : Option Text :=
  mbtiModelContract (wordOf (member value "model_code")) (wordOf (member value "model_version"))

def mbtiSelector : Field :=
  policyModel
    [("audience", literal ["participant"]), ("model_kind", literal ["typology"]), ("decision_kind", literal ["pole_composition"]),
     ("model_code", literal ["MBTI_OEJTS", "MBTI_FC_93"]),
     ("model_version", literal ["v64-report-202608-v1", "v55-report-202608-v1"])]
    fun value => (contractOf value).isSome

/-! Reference material. -/

/-- Checks of the standard library: that a text is a public HTTPS address, and that it
is a date in ISO form. -/
structure ReferenceLibrary where
  publicUrl : Text → Bool
  isoDate : Text → Bool

def mbtiTopics : List String := ["personality", "career", "relationships"]

def isReferenceText (limit : Nat) (word : Text) : Bool :=
  stripText word != [] && decide (word.length ≤ limit) && !word.contains 60 && !word.contains 62

def referenceText (limit : Nat) : Field := .string (isReferenceText limit)

def referenceIdentity : Field := .string (isCode 127)

def referenceSource (library : ReferenceLibrary) : Field :=
  .model
    [("source_id", referenceIdentity), ("title", referenceText 255),
     ("url", .string fun word => isReferenceText 2048 word && library.publicUrl word),
     ("accessed_on", .string library.isoDate), ("support_scope", referenceText 1000)]
    fun _ => true

def referenceEntry : Field :=
  .model
    [("entry_id", referenceIdentity), ("topic", literal mbtiTopics), ("axis", literal (mbtiAxes.map (·.1))),
     ("pole", literal (mbtiAxes.flatMap (·.2))), ("content", referenceText 1000),
     ("source_ids", .items referenceIdentity 1 (some 3)), ("usage_boundary", referenceText 500)]
    fun value =>
      (mbtiAxes.any fun axis => text axis.1 == wordOf (member value "axis") &&
        axis.2.any fun pole => text pole == wordOf (member value "pole")) &&
        decide (texts (member value "source_ids")).Nodup

/-- Each topic with each pole of each axis. -/
def requiredEntries : List (Text × Text × Text) :=
  mbtiTopics.flatMap fun topic => mbtiAxes.flatMap fun axis => axis.2.map fun pole => (text topic, text axis.1, text pole)

/-- What `_canonical` writes has at most so many bytes. -/
def fits (limit : Nat) (written : Except Fault Text) : Bool := (written.toOption.bind encodedLength).any (· ≤ limit)

def materialCheck (value : Value) : Bool :=
  let sources := (items (member value "sources")).map fun source => wordOf (member source "source_id")
  let entries := items (member value "entries")
  let cited := entries.flatMap fun entry => texts (member entry "source_ids")
  (contractOf value).isSome && decide sources.Nodup && decide (cited ⊆ sources) &&
    decide (entries.map fun entry => wordOf (member entry "entry_id")).Nodup &&
    decide (requiredEntries ⊆ entries.map fun entry =>
      (wordOf (member entry "topic"), wordOf (member entry "axis"), wordOf (member entry "pole"))) &&
    decide (sources ⊆ cited) && fits 131072 (dumps compact true none (sortKeys value))

/-- `decode_mbti_reference_material`, by what it accepts. -/
def referenceMaterial (library : ReferenceLibrary) : Field :=
  .model
    [("schema_version", literal ["mbti-reference-material/v1"]), ("version", version), ("model_code", .string fun _ => true),
     ("model_version", .string fun _ => true), ("sources", .items (referenceSource library) 1 (some 8)),
     ("entries", .items referenceEntry 24 (some 48))]
    materialCheck

/-! The canonical text. -/

/-- Characters that mean something in a web page, with their escapes. -/
def escapes : List (Nat × String) :=
  [(38, "\\u0026"), (60, "\\u003c"), (62, "\\u003e"), (0x2028, "\\u2028"), (0x2029, "\\u2029")]

/-- `raw.replace(character, escaped)`. -/
def replaceCode (raw : Text) (pair : Nat × String) : Text := raw.flatMap fun c => if c = pair.1 then text pair.2 else [c]

def canonicalDefinition (value : Value) : Except Fault Text := do
  let raw ← dumps compact false none (sortKeys value)
  pure (escapes.foldl replaceCode raw)

/-! Definitions. -/

/-- The classes of definitions. -/
inductive DefinitionClass
  | definition
  | mbtiDefinition
  | mbtiThematicDefinition
deriving DecidableEq

/-- The fields that all definitions have, with those of their version. -/
def definitionFields (selector generation : Field) (fields : List (String × Field)) : List (String × Field) :=
  [("profile_id", short), ("version", version), ("eligibility", eligibility), ("input_policy", input),
   ("insight_policy", insight), ("suggestion_policy", suggestion), ("safety_policy", safety), ("selector", selector),
   ("generation_policy", generation)] ++ fields

def nonemptyId (value : Value) : Bool := stripText (wordOf (member value "profile_id")) != []

def completeMbti (value : Value) : Bool :=
  let eligibility := member value "eligibility"
  let input := member value "input_policy"
  number (member eligibility "min_eligible_dimensions") == 4 && number (member eligibility "max_input_dimensions") == 4 &&
    texts (member eligibility "eligible_dimension_codes") == mbtiAxes.map (fun axis => text axis.1) &&
    (texts (member eligibility "excluded_dimension_codes")).isEmpty && !isTrue (member input "include_norm_context") &&
    isTrue (member input "include_model_result")

def legacyBasicModel (value : Value) : Bool :=
  wordOf (member (member value "selector") "model_code") == mbtiModel &&
    wordOf (member (member value "selector") "model_version") == mbtiVersion

def frozenReferences (value : Value) : Bool :=
  let selector := member value "selector"
  let material := member value "reference_material"
  contractOf selector == some (wordOf (member (member value "generation_policy") "input_schema_version")) &&
    wordOf (member selector "model_code") == wordOf (member material "model_code") &&
    wordOf (member selector "model_version") == wordOf (member material "model_version") &&
    fits 131072 (canonicalDefinition value)

def definition : Field :=
  policyModel (definitionFields selector generation [("schema_version", literal ["ai-explanation-profile/v1"])]) nonemptyId

def mbtiDefinition : Field :=
  policyModel
    (definitionFields mbtiSelector mbtiGeneration
      [("schema_version", literal ["ai-explanation-profile/v2"]),
       ("scene_contract_version", literal ["mbti-single-assessment/v1"])])
    fun value => nonemptyId value && completeMbti value && legacyBasicModel value

def mbtiThematicDefinition (library : ReferenceLibrary) : Field :=
  policyModel
    (definitionFields mbtiSelector mbtiThematicGeneration
      [("schema_version", literal ["ai-explanation-profile/v3"]),
       ("scene_contract_version", literal ["mbti-single-assessment/v2"]), ("reference_material", referenceMaterial library)])
    fun value => nonemptyId value && completeMbti value && frozenReferences value

def model (library : ReferenceLibrary) : DefinitionClass → Field
  | .definition => definition
  | .mbtiDefinition => mbtiDefinition
  | .mbtiThematicDefinition => mbtiThematicDefinition library

/-- A definition with its dump. -/
structure ProfileDefinition where
  kind : DefinitionClass
  dump : Value

/-- The class that the schema version of a value asks for. -/
def classOf (value : Value) : DefinitionClass :=
  if (member value "schema_version").isText (text "ai-explanation-profile/v3") then .mbtiThematicDefinition
  else if (member value "schema_version").isText (text "ai-explanation-profile/v2") then .mbtiDefinition
  else .definition

def decodeProfileDefinition (library : ReferenceLibrary) (value : Value) : Option ProfileDefinition :=
  (Field.validate (model library (classOf value)) value).map fun held => ⟨classOf value, held⟩

/-! The canonical text is another spelling of the text that is written. -/

/-- The characters that are escaped. -/
def isEscaped (c : Nat) : Bool := escapes.any fun pair => pair.1 == c

theorem isEscaped_cases {c : Nat} (h : isEscaped c = true) : c = 38 ∨ c = 60 ∨ c = 62 ∨ c = 0x2028 ∨ c = 0x2029 := by
  simp only [isEscaped, escapes, List.any_cons, List.any_nil, Bool.or_false, Bool.or_eq_true, beq_iff_eq] at h
  omega

theorem isEscaped_outside : OutsideGrammar isEscaped := by
  intro c hc
  have hCases := isEscaped_cases hc
  omega

theorem isEscaped_spellable (input : Text) : Spellable isEscaped input := by
  intro c _ hc
  have hCases := isEscaped_cases hc
  simp only [isSurrogate, Bool.and_eq_false_iff, decide_eq_false_iff_not]
  omega

theorem replaceCodes_append (pairs : List (Nat × String)) (first second : Text) :
    pairs.foldl replaceCode (first ++ second) = pairs.foldl replaceCode first ++ pairs.foldl replaceCode second := by
  induction pairs generalizing first second with
  | nil => rfl
  | cons pair pairs ih =>
      have hPair : replaceCode (first ++ second) pair = replaceCode first pair ++ replaceCode second pair :=
        List.flatMap_append
      rw [List.foldl_cons, List.foldl_cons, List.foldl_cons, hPair, ih]

/-- One replacement after the other replaces each character once. -/
theorem replaceCodes_respell (raw : Text) : escapes.foldl replaceCode raw = respell isEscaped raw := by
  have hCode : ∀ c, escapes.foldl replaceCode [c] = if isEscaped c then respelled c else [c] := by
    intro c
    cases hEscaped : isEscaped c with
    | true =>
        rcases isEscaped_cases hEscaped with rfl | rfl | rfl | rfl | rfl
        · decide
        · decide
        · decide
        · decide
        · decide
    | false =>
        simp only [isEscaped, escapes, List.any_cons, List.any_nil, Bool.or_false, Bool.or_eq_false_iff, beq_eq_false_iff_ne] at hEscaped
        obtain ⟨hAmpersand, hLess, hGreater, hLine, hParagraph⟩ := hEscaped
        simp only [escapes, List.foldl_cons, List.foldl_nil, replaceCode, List.flatMap_cons, List.flatMap_nil, List.append_nil,
          if_neg hAmpersand.symm, if_neg hLess.symm, if_neg hGreater.symm, if_neg hLine.symm, if_neg hParagraph.symm,
          if_neg Bool.false_ne_true]
  induction raw with
  | nil => rfl
  | cons c rest ih =>
      rw [← List.singleton_append, replaceCodes_append, ih, hCode, respell_append, respell, respell, List.flatMap_singleton]

/-! Accepted definitions. -/

theorem proper_class (library : ReferenceLibrary) (kind : DefinitionClass) : (model library kind).proper = true := by
  cases kind with
  | definition => rfl
  | mbtiDefinition => rfl
  | mbtiThematicDefinition => rfl

section Decoded

variable {library : ReferenceLibrary}

theorem decode_some {value : Value} {found : ProfileDefinition} : decodeProfileDefinition library value = some found ↔
    found.kind = classOf value ∧ Field.validate (model library found.kind) value = some found.dump := by
  rw [decodeProfileDefinition, Option.map_eq_some_iff]
  constructor
  · rintro ⟨held, hHeld, rfl⟩
    exact ⟨rfl, hHeld⟩
  · obtain ⟨kind, dump⟩ := found
    rintro ⟨hKind, hHeld⟩
    obtain rfl : kind = classOf value := hKind
    exact ⟨dump, hHeld, rfl⟩

/-- A literal field of an accepted model is one of its words. -/
theorem member_literal {fields : List (String × Field)} {check : Value → Bool} {value held : Value} (name : String)
    (words : List String) (hNames : (fields.map (·.1)).Nodup) (hField : (name, literal words) ∈ fields)
    (h : Field.validate (.model fields check) value = some held) : ∃ word ∈ words, member held name = .string (text word) := by
  obtain ⟨given, found, -, rfl, -, hFound, -⟩ := Field.validate_model.mp h
  obtain ⟨entry, hEntry, hKey, inner, -, hInner⟩ := Field.holds_entry hFound hField
  obtain ⟨word, -, hHeld, hWord⟩ := Field.validate_string hInner
  rw [List.any_eq_true] at hWord
  obtain ⟨spelled, hSpelled, hSame⟩ := hWord
  refine ⟨spelled, hSpelled, ?_⟩
  have hLookup : found.lookup (text name) = some entry.2 := by
    rw [← show entry.1 = text name from hKey]
    exact lookup_of_mem (Field.holds_nodup hNames hFound) hEntry
  have hItem : (Value.object found).item name = .ok entry.2 := (demand_ok _ _ _).mpr hLookup
  rw [member, hItem, hHeld, ← eq_of_beq hSame]
  rfl

/-- What a class accepts names the version of the class. -/
theorem classOf_validate {kind : DefinitionClass} {value held : Value}
    (h : Field.validate (model library kind) value = some held) : classOf (sortKeys held) = kind := by
  have hWell := Field.validate_wellFormed _ (proper_class library kind) _ _ h
  have hMember : member (sortKeys held) "schema_version" = sortKeys (member held "schema_version") := by
    rw [member, member, item_sortKeys hWell]
    cases held.item "schema_version" with
    | error fault => rfl
    | ok value => rfl
  have hProper := proper_class library kind
  cases kind with
  | definition =>
      obtain ⟨word, hWord, hVersion⟩ := member_literal "schema_version" ["ai-explanation-profile/v1"]
        (Field.proper_model.mp hProper).1 (List.mem_append_right _ List.mem_cons_self) h
      obtain rfl := List.mem_singleton.mp hWord
      rw [classOf, hMember, hVersion]
      rfl
  | mbtiDefinition =>
      obtain ⟨word, hWord, hVersion⟩ := member_literal "schema_version" ["ai-explanation-profile/v2"]
        (Field.proper_model.mp hProper).1 (List.mem_append_right _ List.mem_cons_self) h
      obtain rfl := List.mem_singleton.mp hWord
      rw [classOf, hMember, hVersion]
      rfl
  | mbtiThematicDefinition =>
      obtain ⟨word, hWord, hVersion⟩ := member_literal "schema_version" ["ai-explanation-profile/v3"]
        (Field.proper_model.mp hProper).1 (List.mem_append_right _ List.mem_cons_self) h
      obtain rfl := List.mem_singleton.mp hWord
      rw [classOf, hMember, hVersion]
      rfl

variable {value : Value} {found : ProfileDefinition} (h : decodeProfileDefinition library value = some found)

include h

theorem decoded_wellFormed : found.dump.WellFormed :=
  Field.validate_wellFormed _ (proper_class library found.kind) _ _ (decode_some.mp h).2

/-- The dump is accepted again, with its keys in any order, as the same definition. -/
theorem decode_sorted : decodeProfileDefinition library (sortKeys found.dump) = some found := by
  obtain ⟨-, hHeld⟩ := decode_some.mp h
  exact decode_some.mpr ⟨(classOf_validate hHeld).symm, Field.validate_sorted _ (proper_class library found.kind) _ _ hHeld⟩

/-- The canonical text of a definition is read as its dump. -/
theorem canonical_loads : ∃ content, canonicalDefinition found.dump = .ok content ∧
    loads overwrite none content = .ok (sortKeys found.dump) := by
  have hWell := sortKeys_wellFormed _ (decoded_wellFormed h)
  have hWritten := Field.validate_written _ (proper_class library found.kind) _ _ hWell (decode_some.mp (decode_sorted h)).2
  refine ⟨respell isEscaped (valueText compact (sortKeys found.dump)), ?_, ?_⟩
  · rw [canonicalDefinition, dumps, hWritten, ← replaceCodes_respell]
    rfl
  · exact loads_respell isEscaped_outside (isEscaped_spellable _) (loads_valueText keeps_overwrite hWell hWritten)

end Decoded

/-- The canonical text of a definition is faithful: it is read as a value equal to the
dump, which is accepted again as the same definition, and two definitions have one
canonical text exactly when they are equal. -/
theorem canonical_faithful (library : ReferenceLibrary) {value : Value} {found : ProfileDefinition}
    (h : decodeProfileDefinition library value = some found) :
    (∃ content parsed, canonicalDefinition found.dump = .ok content ∧ loads overwrite none content = .ok parsed ∧
      equal parsed found.dump = true ∧ decodeProfileDefinition library parsed = some found) ∧
    ∀ value' other, decodeProfileDefinition library value' = some other →
      (canonicalDefinition other.dump = canonicalDefinition found.dump ↔
        other.kind = found.kind ∧ equal other.dump found.dump = true) := by
  obtain ⟨content, hContent, hLoads⟩ := canonical_loads h
  refine ⟨⟨content, _, hContent, hLoads, equal_sortKeys _ (decoded_wellFormed h), decode_sorted h⟩, ?_⟩
  intro value' other hOther
  constructor
  · intro hSame
    obtain ⟨content', hContent', hLoads'⟩ := canonical_loads hOther
    rw [hContent, hContent'] at hSame
    obtain rfl := Except.ok.inj hSame
    rw [hLoads'] at hLoads
    have hBoth := decode_sorted hOther
    rw [Except.ok.inj hLoads, decode_sorted h] at hBoth
    obtain rfl := Option.some.inj hBoth
    exact ⟨rfl, equal_self _ (decoded_wellFormed h)⟩
  · rintro ⟨hKind, hEqual⟩
    have hHeld := (decode_some.mp hOther).2
    rw [hKind] at hHeld
    rw [Field.validate_equal _ (proper_class library found.kind) _ _ _ _ hHeld (decode_some.mp h).2 hEqual]

/-! A definition of the second version. -/

def said (value : String) : Value := .string (text value)

def saidAll (values : List String) : Value := .array (values.map said)

/-- A value that a field holds as it is. -/
structure Sample (field : Field) where
  value : Value
  kept : Field.validate field value = some value

def mbtiEligibility : Sample eligibility where
  value :=
    dictionary
      [("min_eligible_dimensions", .int 4), ("max_input_dimensions", .int 4),
       ("eligible_dimension_codes", saidAll ["EI", "SN", "TF", "JP"]), ("excluded_dimension_codes", saidAll []),
       ("on_dimension_overflow", said "reject")]
  kept := by decide +kernel

def mbtiInput : Sample input where
  value :=
    dictionary
      [("context_scope", said "current_assessment_only"), ("include_norm_context", .bool false), ("include_model_result", .bool true),
       ("allowed_focus_areas", saidAll ["career"]),
       ("hierarchy_policy", dictionary [("allow_parent_child_in_same_insight", .bool false)])]
  kept := by decide +kernel

def mbtiInsight : Sample insight where
  value :=
    dictionary
      [("allowed_kinds", saidAll ["combined_strength"]), ("min_items", .int 1), ("max_items", .int 3),
       ("min_dimension_refs_per_item", .int 2), ("max_dimension_refs_per_item", .int 4), ("allow_causal_claims", .bool false)]
  kept := by decide +kernel

def mbtiSuggestion : Sample suggestion where
  value :=
    dictionary
      [("allowed_origins", saidAll ["generated_low_risk"]), ("allowed_categories", saidAll ["daily"]), ("min_items", .int 1),
       ("max_items", .int 3), ("max_actions_per_item", .int 3), ("require_evidence_refs", .bool true),
       ("require_standard_refs_for_standard_derived", .bool true)]
  kept := by decide +kernel

def mbtiSafety : Sample safety where
  value :=
    dictionary
      [("policy_version", said "v1"),
       ("forbidden_claims", saidAll ["diagnosis", "causality", "medication", "treatment_plan", "risk_reclassification",
         "identity_inference", "deterministic_future_prediction"]),
       ("disclaimer_version", said "v1")]
  kept := by decide +kernel

def mbtiScene : Sample mbtiSelector where
  value :=
    dictionary
      [("audience", said "participant"), ("model_kind", said "typology"), ("decision_kind", said "pole_composition"),
       ("model_code", said "MBTI_OEJTS"), ("model_version", said "v64-report-202608-v1")]
  kept := by decide +kernel

def mbtiGenerated : Sample mbtiGeneration where
  value :=
    dictionary
      [("prompt_template_id", said "mbti"), ("prompt_version", said "v1"), ("provider_route", said "main"),
       ("output_schema_version", said "ai-explanation-output/v1"), ("max_output_characters", .int 4000),
       ("input_schema_version", said "ai-explanation-input/v2")]
  kept := by decide +kernel

/-- A definition whose identity means something in a web page. -/
def mbtiProfile : Value :=
  dictionary
    [("profile_id", said "<mbti> & \\\"r\"\u2028"), ("version", said "v1"), ("eligibility", mbtiEligibility.value),
     ("input_policy", mbtiInput.value), ("insight_policy", mbtiInsight.value), ("suggestion_policy", mbtiSuggestion.value),
     ("safety_policy", mbtiSafety.value), ("selector", mbtiScene.value), ("generation_policy", mbtiGenerated.value),
     ("schema_version", said "ai-explanation-profile/v2"), ("scene_contract_version", said "mbti-single-assessment/v1")]

/-- A library that takes addresses of one scheme and any ten characters as a date. -/
def openLibrary : ReferenceLibrary := ⟨fun word => (text "https://").isPrefixOf word, fun word => word.length == 10⟩

theorem mbtiProfile_accepted :
    decodeProfileDefinition openLibrary mbtiProfile = some ⟨.mbtiDefinition, mbtiProfile⟩ := by
  refine decode_some.mpr ⟨by decide +kernel, ?_⟩
  refine Field.validate_dictionary (Field.proper_model.mp (proper_class openLibrary .mbtiDefinition)).1 ?_ (by decide +kernel)
  refine .cons ⟨rfl, by decide +kernel⟩ (.cons ⟨rfl, by decide +kernel⟩ (.cons ⟨rfl, mbtiEligibility.kept⟩ ?_))
  refine .cons ⟨rfl, mbtiInput.kept⟩ (.cons ⟨rfl, mbtiInsight.kept⟩ (.cons ⟨rfl, mbtiSuggestion.kept⟩ ?_))
  refine .cons ⟨rfl, mbtiSafety.kept⟩ (.cons ⟨rfl, mbtiScene.kept⟩ (.cons ⟨rfl, mbtiGenerated.kept⟩ ?_))
  exact .cons ⟨rfl, by decide +kernel⟩ (.cons ⟨rfl, by decide +kernel⟩ .nil)

theorem mbtiProfile_faithful : ∃ content parsed, canonicalDefinition mbtiProfile = .ok content ∧
    loads overwrite none content = .ok parsed ∧
      decodeProfileDefinition openLibrary parsed = some ⟨.mbtiDefinition, mbtiProfile⟩ := by
  obtain ⟨⟨content, parsed, hContent, hParsed, -, hAgain⟩, -⟩ := canonical_faithful openLibrary mbtiProfile_accepted
  exact ⟨content, parsed, hContent, hParsed, hAgain⟩

end Profiles

end QsAi
