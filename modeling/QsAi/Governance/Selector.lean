import QsAi.Text
import QsAi.Time
import QsAi.Foundation.MostSpecific

/-! Selectors of published configurations. An admission looks up the keys of at
most three selectors; resolution is defined by matching and specificity over
every pointer. Both find the same publication. -/
namespace QsAi

open Keyed MostSpecific PyJson

/-- The scoring facts of one personality model. -/
structure MBTIModelContract where
  axes : List (String × String × String)
  /-- Least, greatest and middle score of each axis, the last one doubled. -/
  bounds : List (Nat × Nat × Nat)
  thematicInputVersion : String

def mbtiModel : String := "MBTI_OEJTS"
def mbtiVersion : String := "v64-report-202608-v1"
def mbtiExplorationModel : String := "MBTI_FC_93"
def mbtiExplorationVersion : String := "v55-report-202608-v1"

def mbtiModelContract (code version : Option String) : Option MBTIModelContract :=
  if (code, version) = (some mbtiModel, some mbtiVersion) then
    some {
      axes := [("EI", "I", "E"), ("SN", "S", "N"), ("TF", "F", "T"), ("JP", "J", "P")]
      bounds := List.replicate 4 (8, 40, 48)
      thematicInputVersion := "ai-explanation-input/v3" }
  else if (code, version) = (some mbtiExplorationModel, some mbtiExplorationVersion) then
    some {
      axes := [("EI", "E", "I"), ("SN", "S", "N"), ("TF", "T", "F"), ("JP", "J", "P")]
      bounds := [(0, 23, 23), (0, 23, 23), (0, 23, 23), (0, 24, 23)]
      thematicInputVersion := "ai-explanation-input/v4" }
  else none

def isMbtiSelector (audience kind decision : String) (code version : Option String) : Bool :=
  (audience, kind, decision) == ("participant", "typology", "pole_composition") && (mbtiModelContract code version).isSome

/-- The form of a model version: a letter or digit, then at most 127 letters,
digits, dots, underscores, slashes or dashes. -/
def validModelVersion (value : String) : Bool :=
  match value.toList with
  | [] => false
  | first :: rest =>
      first.isAlphanum && rest.length ≤ 127 &&
        rest.all fun c => c.isAlphanum || c == '.' || c == '_' || c == '/' || c == '-'

def validModelCode (value : String) : Bool := strip value != "" && byteLength value ≤ 255

/-- What a selector is checked for when it is built. -/
def selectorValid (audience kind decision : String) (code version : Option String) : Bool :=
  ((audience, kind, decision) == ("participant", "scale", "score_range") ||
    isMbtiSelector audience kind decision code version) &&
  code.all validModelCode && version.all (fun value => code.isSome && validModelVersion value)

structure ReleaseSelector where
  audience : String
  modelKind : String
  decisionKind : String
  modelCode : Option String := none
  modelVersion : Option String := none
  valid : selectorValid audience modelKind decisionKind modelCode modelVersion = true
deriving DecidableEq

namespace ReleaseSelector

theorem ext {first other : ReleaseSelector} (hAudience : first.audience = other.audience)
    (hKind : first.modelKind = other.modelKind) (hDecision : first.decisionKind = other.decisionKind)
    (hCode : first.modelCode = other.modelCode) (hVersion : first.modelVersion = other.modelVersion) : first = other := by
  cases first
  cases other
  simp_all

theorem valid_parts (selector : ReleaseSelector) :
    ((selector.audience, selector.modelKind, selector.decisionKind) = ("participant", "scale", "score_range") ∨
      isMbtiSelector selector.audience selector.modelKind selector.decisionKind selector.modelCode
        selector.modelVersion = true) ∧
    selector.modelCode.all validModelCode = true ∧
    selector.modelVersion.all (fun value => selector.modelCode.isSome && validModelVersion value) = true := by
  have hValid := selector.valid
  simp only [selectorValid, Bool.and_eq_true, Bool.or_eq_true, beq_iff_eq] at hValid
  exact ⟨hValid.1.1, hValid.1.2, hValid.2⟩

/-- A version needs a code. -/
theorem version_none {selector : ReleaseSelector} (h : selector.modelCode = none) : selector.modelVersion = none := by
  have hVersion := selector.valid_parts.2.2
  cases hSome : selector.modelVersion with
  | none => rfl
  | some version => simp [hSome, h] at hVersion

theorem typology_iff (selector : ReleaseSelector) :
    (selector.modelKind = "typology" ↔ isMbtiSelector selector.audience selector.modelKind selector.decisionKind
      selector.modelCode selector.modelVersion = true) ∧
    (selector.modelKind ≠ "typology" ↔
      (selector.audience, selector.modelKind, selector.decisionKind) = ("participant", "scale", "score_range")) := by
  rcases selector.valid_parts.1 with hScale | hMbti
  · have hKind : selector.modelKind = "scale" := congrArg (fun parts => parts.2.1) hScale
    have hNot : selector.modelKind ≠ "typology" := by
      rw [hKind]
      decide
    have hNotMbti : ¬ isMbtiSelector selector.audience selector.modelKind selector.decisionKind selector.modelCode
        selector.modelVersion = true := by
      intro hMbti
      simp only [isMbtiSelector, Bool.and_eq_true, beq_iff_eq, Prod.mk.injEq] at hMbti
      exact hNot hMbti.1.2.1
    exact ⟨iff_of_false hNot hNotMbti, iff_of_true hNot hScale⟩
  · have hKind : selector.modelKind = "typology" := by
      simp only [isMbtiSelector, Bool.and_eq_true, beq_iff_eq, Prod.mk.injEq] at hMbti
      exact hMbti.1.2.1
    refine ⟨iff_of_true hKind hMbti, iff_of_false (fun h => h hKind) fun hScale => ?_⟩
    have hScaleKind : selector.modelKind = "scale" := congrArg (fun parts => parts.2.1) hScale
    rw [hKind] at hScaleKind
    exact absurd hScaleKind (by decide)

/-- A personality selector names its model and version. -/
theorem typology_named {selector : ReleaseSelector} (h : selector.modelKind = "typology") :
    ∃ code version, selector.modelCode = some code ∧ selector.modelVersion = some version := by
  have hMbti := selector.typology_iff.1.mp h
  simp only [isMbtiSelector, Bool.and_eq_true] at hMbti
  have hContract := hMbti.2
  unfold mbtiModelContract at hContract
  split at hContract
  · rename_i hNames
    exact ⟨_, _, congrArg Prod.fst hNames, congrArg Prod.snd hNames⟩
  · split at hContract
    · rename_i hNames
      exact ⟨_, _, congrArg Prod.fst hNames, congrArg Prod.snd hNames⟩
    · cases hContract

theorem withoutVersion_valid (selector : ReleaseSelector) (h : selector.modelKind ≠ "typology") :
    selectorValid selector.audience selector.modelKind selector.decisionKind selector.modelCode none = true := by
  have hScale := selector.typology_iff.2.mp h
  simp [selectorValid, hScale, selector.valid_parts.2.1]

theorem withoutModel_valid (selector : ReleaseSelector) (h : selector.modelKind ≠ "typology") :
    selectorValid selector.audience selector.modelKind selector.decisionKind none none = true := by
  have hScale := selector.typology_iff.2.mp h
  simp [selectorValid, hScale]

/-- The selectors an admission looks up, the most specific one first. -/
def admissionCandidates (selector : ReleaseSelector) : List ReleaseSelector :=
  if h : selector.modelKind = "typology" then [selector]
  else List.eraseDups [selector,
    { selector with modelVersion := none, valid := selector.withoutVersion_valid h },
    { selector with modelCode := none, modelVersion := none, valid := selector.withoutModel_valid h }]

def specificity (selector : ReleaseSelector) : Nat :=
  if selector.modelVersion.isSome then 2 else if selector.modelCode.isSome then 1 else 0

def asDict (selector : ReleaseSelector) : Value :=
  let name (value : Option String) : Value := value.elim .null fun found => .string (text found)
  .object [(text "audience", .string (text selector.audience)), (text "decision_kind", .string (text selector.decisionKind)),
    (text "model_code", name selector.modelCode), (text "model_kind", .string (text selector.modelKind)),
    (text "model_version", name selector.modelVersion)]

/-- The key of the selector: the digest of its canonical text. -/
def key (digest : Value → String) (selector : ReleaseSelector) : String := digest selector.asDict

def «matches» (selector query : ReleaseSelector) : Bool :=
  (selector.audience, selector.modelKind, selector.decisionKind) == (query.audience, query.modelKind, query.decisionKind) &&
  (selector.modelCode.isNone || selector.modelCode == query.modelCode) &&
  (selector.modelVersion.isNone || selector.modelVersion == query.modelVersion)

theorem matches_iff (selector query : ReleaseSelector) :
    selector.matches query = true ↔
      (selector.audience = query.audience ∧ selector.modelKind = query.modelKind ∧
        selector.decisionKind = query.decisionKind) ∧
      (selector.modelCode = none ∨ selector.modelCode = query.modelCode) ∧
      (selector.modelVersion = none ∨ selector.modelVersion = query.modelVersion) := by
  simp [ReleaseSelector.matches, Bool.and_eq_true, Bool.or_eq_true, and_assoc]

/-- A selector matches a query exactly when the admission of the query looks it
up: the versions without a code and the codes of other kinds do not exist. -/
theorem matches_iff_mem (selector query : ReleaseSelector) :
    selector.matches query = true ↔ selector ∈ query.admissionCandidates := by
  rw [matches_iff]
  unfold admissionCandidates
  split
  · rename_i hKind
    rw [List.mem_singleton]
    constructor
    · rintro ⟨⟨hAudience, hSame, hDecision⟩, hCode, hVersion⟩
      obtain ⟨code, version, hNamed, hVersioned⟩ := typology_named (hSame.trans hKind)
      apply ext hAudience hSame hDecision
      · exact hCode.resolve_left (by simp [hNamed])
      · exact hVersion.resolve_left (by simp [hVersioned])
    · rintro rfl
      exact ⟨⟨rfl, rfl, rfl⟩, Or.inr rfl, Or.inr rfl⟩
  · rename_i hKind
    simp only [List.mem_eraseDups, List.mem_cons, List.not_mem_nil, or_false]
    constructor
    · rintro ⟨⟨hAudience, hSame, hDecision⟩, hCode, hVersion⟩
      rcases hCode with hNone | hCode
      · exact Or.inr (Or.inr (ext hAudience hSame hDecision hNone (version_none hNone)))
      · rcases hVersion with hNone | hVersion
        · exact Or.inr (Or.inl (ext hAudience hSame hDecision hCode hNone))
        · exact Or.inl (ext hAudience hSame hDecision hCode hVersion)
    · rintro (rfl | rfl | rfl)
      · exact ⟨⟨rfl, rfl, rfl⟩, Or.inr rfl, Or.inr rfl⟩
      · exact ⟨⟨rfl, rfl, rfl⟩, Or.inr rfl, Or.inl rfl⟩
      · exact ⟨⟨rfl, rfl, rfl⟩, Or.inl rfl, Or.inl rfl⟩

/-- The candidates of a query fall in specificity. -/
theorem candidates_falling (query : ReleaseSelector) :
    query.admissionCandidates.Pairwise fun first later => later.specificity < first.specificity := by
  unfold admissionCandidates
  split
  · exact List.pairwise_singleton _ _
  · rename_i hKind
    apply falling_eraseDups
    simp only [List.pairwise_cons, List.mem_cons, List.not_mem_nil, or_false, forall_eq_or_imp, forall_eq]
    have hCodes : query.modelCode = none ∨ 0 < (if query.modelCode.isSome then 1 else 0) := by
      cases query.modelCode with
      | none => exact Or.inl rfl
      | some code => exact Or.inr (by simp)
    refine ⟨⟨?_, ?_⟩, ?_, by simp, List.Pairwise.nil⟩
    · cases hVersion : query.modelVersion with
      | none => exact Or.inl (ext rfl rfl rfl rfl hVersion)
      | some version =>
          right
          simp only [specificity, hVersion]
          cases query.modelCode <;> simp
    · rcases hCodes with hNone | hCode
      · exact Or.inl (ext rfl rfl rfl hNone (version_none hNone))
      · right
        simp only [specificity, Option.isSome_none, Bool.false_eq_true, if_false]
        split
        · decide
        · exact hCode
    · rcases hCodes with hNone | hCode
      · exact Or.inl (ext rfl rfl rfl hNone rfl)
      · exact Or.inr hCode

end ReleaseSelector

/-- Version, active publication and time of the last change of one selector. -/
structure PublicationPointer (Published : Type) where
  selector : ReleaseSelector
  version : Nat := 0
  active : Option Published := none
  changedAt : Option DateTime := none

inductive PublicationConflict
  | ambiguous
deriving DecidableEq

section
variable {Published : Type}

/-- The active publication of the most specific selector that matches. -/
def resolvePublication (pointers : List (PublicationPointer Published)) (query : ReleaseSelector) :
    Except PublicationConflict (Option Published) :=
  let candidates := pointers.filter fun pointer => pointer.active.isSome && pointer.selector.matches query
  (select (·.selector.specificity) .ambiguous candidates).map fun selected => selected.bind (·.active)

/-- The pointers an admission reads: those whose key is a candidate's. -/
def candidateRows (digest : Value → String) (pointers : List (PublicationPointer Published)) (query : ReleaseSelector) :
    List (PublicationPointer Published) :=
  pointers.filter fun pointer => pointer.selector.key digest ∈ query.admissionCandidates.map (·.key digest)

/-- The active publication of the first candidate that has an active pointer. -/
def firstActive (pointers : List (PublicationPointer Published)) (query : ReleaseSelector) : Option Published :=
  query.admissionCandidates.findSome? fun candidate => (lookup (·.selector) pointers candidate).bind (·.active)

variable {pointers rows : List (PublicationPointer Published)} {query : ReleaseSelector} {digest : Value → String}

/-- In any keyed list of pointers that holds the active ones of the candidates,
resolution finds the first active candidate and is never ambiguous. -/
theorem resolvePublication_eq (hDistinct : UniqueOn (·.selector) rows) :
    resolvePublication rows query = .ok (firstActive rows query) := by
  have hRows : UniqueOn (·.selector) (rows.filter fun pointer => pointer.active.isSome && pointer.selector.matches query) :=
    hDistinct.sublist List.filter_sublist
  have hKeys : ∀ pointer ∈ rows.filter fun pointer => pointer.active.isSome && pointer.selector.matches query,
      pointer.selector ∈ query.admissionCandidates := by
    intro pointer hPointer
    rw [List.mem_filter, Bool.and_eq_true] at hPointer
    exact (ReleaseSelector.matches_iff_mem _ _).mp hPointer.2.2
  rw [resolvePublication, show (fun pointer : PublicationPointer Published => pointer.selector.specificity) =
    ReleaseSelector.specificity ∘ (·.selector) from rfl, select_chain hRows query.candidates_falling hKeys]
  have hActive : ∀ chain : List ReleaseSelector, (∀ candidate ∈ chain, candidate ∈ query.admissionCandidates) →
      (chain.findSome? (lookup (·.selector)
        (rows.filter fun pointer => pointer.active.isSome && pointer.selector.matches query))).bind (·.active) =
      chain.findSome? fun candidate => (lookup (·.selector) rows candidate).bind (·.active) := by
    intro chain hChain
    induction chain with
    | nil => rfl
    | cons candidate chain ih =>
        have hRest := ih fun other hOther => hChain other (List.mem_cons_of_mem _ hOther)
        rw [List.findSome?_cons, List.findSome?_cons, hDistinct.lookup_filter]
        cases hFind : lookup (·.selector) rows candidate with
        | none => exact hRest
        | some pointer =>
            have hMatches : pointer.selector.matches query = true := by
              rw [(lookup_some hFind).2]
              exact (ReleaseSelector.matches_iff_mem _ _).mpr (hChain candidate (by simp))
            cases hPointer : pointer.active with
            | none => simpa [Option.filter, hPointer] using hRest
            | some publication => simp [Option.filter, hPointer, hMatches]
  rw [Except.map, hActive _ fun _ h => h, firstActive]

/-- The pointers an admission reads resolve as the whole catalogue does: to the
active publication of the first candidate that has one, and never ambiguously. -/
theorem selector_lookup_exact (hDistinct : UniqueOn (·.selector) pointers)
    (hRows : rows.Perm (candidateRows digest pointers query)) :
    resolvePublication pointers query = .ok (firstActive pointers query) ∧
      resolvePublication rows query = resolvePublication pointers query := by
  have hPart : UniqueOn (·.selector) (candidateRows digest pointers query) := hDistinct.sublist List.filter_sublist
  have hRead : UniqueOn (·.selector) rows := hPart.perm hRows.symm
  refine ⟨resolvePublication_eq hDistinct, ?_⟩
  rw [resolvePublication_eq hDistinct, resolvePublication_eq hRead]
  -- The candidates' rows are all there, so the first active one is the same.
  have hSame : ∀ chain : List ReleaseSelector, (∀ candidate ∈ chain, candidate ∈ query.admissionCandidates) →
      chain.findSome? (fun candidate => (lookup (·.selector) rows candidate).bind (·.active)) =
        chain.findSome? (fun candidate => (lookup (·.selector) pointers candidate).bind (·.active)) := by
    intro chain hChain
    induction chain with
    | nil => rfl
    | cons candidate chain ih =>
        have hLookup : lookup (·.selector) rows candidate = lookup (·.selector) pointers candidate := by
          rw [lookup_perm hRead hRows, candidateRows, hDistinct.lookup_filter]
          cases hFind : lookup (·.selector) pointers candidate with
          | none => rfl
          | some pointer =>
              apply Option.filter_some_pos
              rw [decide_eq_true_eq, (lookup_some hFind).2]
              exact List.mem_map_of_mem (hChain candidate (by simp))
        rw [List.findSome?_cons, List.findSome?_cons, hLookup,
          ih fun other hOther => hChain other (List.mem_cons_of_mem _ hOther)]
  rw [firstActive, firstActive, hSame _ fun _ h => h]

end

namespace Pilot

theorem scale_valid : selectorValid "participant" "scale" "score_range" none none = true := by decide

theorem coded_valid : selectorValid "participant" "scale" "score_range" (some "phq9") none = true := by decide +kernel

theorem versioned_valid : selectorValid "participant" "scale" "score_range" (some "phq9") (some "v1") = true := by
  decide +kernel

def anyScale : ReleaseSelector := ⟨"participant", "scale", "score_range", none, none, scale_valid⟩

def codedScale : ReleaseSelector := ⟨"participant", "scale", "score_range", some "phq9", none, coded_valid⟩

def versionedScale : ReleaseSelector := ⟨"participant", "scale", "score_range", some "phq9", some "v1", versioned_valid⟩

/-- The most specific pointer is disabled; two broader ones are active. -/
def catalogue : List (PublicationPointer Nat) :=
  [{ selector := anyScale, version := 1, active := some 1 }, { selector := versionedScale, version := 2 },
    { selector := codedScale, version := 3, active := some 3 }]

theorem catalogue_distinct : UniqueOn (·.selector) catalogue := by decide +kernel

theorem selector_lookup_exact_disabled :
    resolvePublication catalogue versionedScale = .ok (firstActive catalogue versionedScale) ∧
      resolvePublication (candidateRows (fun _ => "key") catalogue versionedScale) versionedScale =
        resolvePublication catalogue versionedScale :=
  selector_lookup_exact catalogue_distinct (List.Perm.refl (candidateRows (fun _ => "key") catalogue versionedScale))

end Pilot

end QsAi
