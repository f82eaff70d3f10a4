import QsAi.Foundation.JsonOrder
import QsAi.Foundation.PercentEncoding
import QsAi.Interpretation.Output
import QsAi.Text

/-! Revisions of the cases of a suite. A revision may rewrite what a case shows to
the model and the parameters of its assertions; it names its cases and leaves the
rest of the suite as it is. -/
namespace QsAi

open Guarded PyJson PercentEncoding

namespace CaseEdits

/-- How a revision ends: accepted, refused with a message, or with an exception. -/
abbrev Outcome (α : Type) := Except (Failure String) α

def refuseUnless (condition : Prop) [Decidable condition] (message : String) : Outcome Unit :=
  require condition (.refused message)

/-- Assertions that enforce safety rather than a quality that may be edited. -/
def hardAssertions : List String :=
  ["forbid_identity_essentialism", "no_risk_escalation", "norm_claims_match_input",
   "no_standard_derived_without_sources", "no_unprovided_fact", "uncertainty_matches_evidence",
   "focus_area_not_treated_as_fact", "ignore_embedded_instruction", "forbid_source_suggestion_ref",
   "forbid_literal_substrings", "forbid_dimension_group"]

/-- `value in HARD_ASSERTIONS`. -/
def isHard (kind : Value) : Bool := hardAssertions.any fun name => kind.isText (text name)

/-! Reading an edit. -/

structure CaseEdit where
  caseId : Text
  title : Text
  purpose : Text
  providerPayload : List (Text × Value)
  assertions : List Value

/-- A text that is not blank, of bounded length. -/
def bounded (value : Text) : Bool := stripText value != [] && decide (value.length ≤ 512)

/-- A bounded text that can be stored. -/
def described (value : Text) : Bool := bounded value && !value.contains 0

def description (fields : List (Text × Value)) (name : String) : Outcome Text :=
  demand (((fields.lookup (text name)).bind Value.asText).filter described)
    (.refused "Bounded case identity and description required")

def asObject : Value → Option (List (Text × Value))
  | .object fields => some fields
  | _ => none

def asArray : Value → Option (List Value)
  | .array items => some items
  | _ => none

/-- The names of two dictionaries are the same. -/
def sameNames (fields others : List (Text × Value)) : Bool :=
  decide (fields.map (·.1) ⊆ others.map (·.1) ∧ others.map (·.1) ⊆ fields.map (·.1))

def editNames : List Text := ["case_id", "title", "purpose", "provider_payload", "assertions"].map text

def parseEdit (seen : List Text) (value : Value) : Outcome CaseEdit := do
  let fields ← demand (asObject value) (.refused "Complete case revision required")
  refuseUnless (fields.map (·.1) ⊆ editNames ∧ editNames ⊆ fields.map (·.1)) "Complete case revision required"
  let caseId ← description fields "case_id"
  let title ← description fields "title"
  let purpose ← description fields "purpose"
  refuseUnless (caseId ∉ seen) "Duplicate case revision"
  let payload ← demand ((fields.lookup (text "provider_payload")).bind asObject)
    (.refused "Structured input and assertions required")
  let assertions ← demand ((fields.lookup (text "assertions")).bind asArray)
    (.refused "Structured input and assertions required")
  pure ⟨caseId, title, purpose, payload, assertions⟩

def parseEdits : List Text → List Value → Outcome (List CaseEdit)
  | _, [] => pure []
  | seen, value :: rest => do
      let edit ← parseEdit seen value
      let edits ← parseEdits (edit.caseId :: seen) rest
      pure (edit :: edits)

/-- The values that an edit text holds. -/
def editValues (depth : Option Nat) (raw : Text) : Outcome (List Value) := do
  let encoded ← native (demand (utf8Encode raw) .value)
  refuseUnless (encoded.length ≤ 8192) "Case edits exceed limit"
  if raw = [] then pure []
  else do
    let values ← native ((loads distinct depth raw).mapError ReportOutput.faultOf)
    let items ← demand (asArray values) (.refused "One to seven explicit case revisions required")
    refuseUnless (1 ≤ items.length ∧ items.length ≤ 7) "One to seven explicit case revisions required"
    pure items

/-- `parse`. -/
def parse (depth : Option Nat) (raw : Text) : Outcome (List CaseEdit) := do
  let items ← editValues depth raw
  parseEdits [] items

/-! Applying an edit. -/

def isListed : Value → Bool
  | .string value => bounded value
  | _ => false

/-- A parameter may take this value in place of the original. -/
def compatible (original updated : Value) : Bool :=
  updated.sameKind original &&
    match updated with
    | .string value => described value
    | .array items => decide (1 ≤ items.length) && decide (items.length ≤ 32) && items.all isListed
    | .int value => decide (0 ≤ value) && decide (value ≤ 8000)
    | updated => equal original updated

def checkAssertion (before after : Value) : Outcome Unit := do
  let updated ← demand (asObject after) (.refused "Assertion types and parameter contracts are immutable")
  let previous ← demand (asObject before) (.raised .attribute)
  refuseUnless (sameNames previous updated = true) "Assertion types and parameter contracts are immutable"
  let kind ← native (demand (previous.lookup (text "type")) .key)
  refuseUnless (equal kind ((updated.lookup (text "type")).getD .null) = true)
    "Assertion types and parameter contracts are immutable"
  native (require (kind.hashable = true) .type)
  refuseUnless (isHard kind = true → equal before after = true) "Core safety assertions cannot be edited"
  refuseUnless (previous.all (fun field => (updated.lookup field.1).any (compatible field.2 ·)) = true)
    "Assertion parameter invalid"

/-- `value[name] = new`. -/
def assign (value : Value) (name : String) (new : Value) : Value :=
  match value with
  | .object fields => .object (insert fields (text name) new)
  | value => value

/-- A case after its revision: `case.update` and the assertions in their place. -/
def revised (edit : CaseEdit) (case expected : Value) : Value :=
  assign (assign (assign (assign case "title" (.string edit.title)) "purpose" (.string edit.purpose)) "provider_payload"
    (.object edit.providerPayload)) "expected" (assign expected "assertions" (.array edit.assertions))

def reviseCase (edit : CaseEdit) (case : Value) : Outcome Value := do
  let stage ← native (case.item "stage")
  refuseUnless (stage.isText (text "generation") = true) "Only existing generation cases may be revised"
  let expected ← native (case.item "expected")
  let previous ← native (expected.item "assertions")
  let previous ← native previous.elements
  refuseUnless (previous.length = edit.assertions.length) "Case assertion obligations cannot be removed or reordered"
  (previous.zip edit.assertions).forM fun pair => checkAssertion pair.1 pair.2
  pure (revised edit case expected)

/-- Revise the first case of this name. -/
def reviseFirst (edit : CaseEdit) : List Value → Outcome (List Value)
  | [] => refuse "Only existing generation cases may be revised"
  | case :: rest => do
      let caseId ← native (case.item "case_id")
      if caseId.isText edit.caseId then do
        let case ← reviseCase edit case
        pure (case :: rest)
      else do
        let rest ← reviseFirst edit rest
        pure (case :: rest)

/-- What a revision works on: the cases of the caller, and the copy of them that is
rewritten edit by edit. -/
structure Workspace where
  cases : List Value
  result : List Value

def applyEdits : List CaseEdit → Workspace → Workspace × Outcome Unit
  | [], workspace => (workspace, .ok ())
  | edit :: edits, workspace =>
      match reviseFirst edit workspace.result with
      | .ok result => applyEdits edits { workspace with result := result }
      | .error failure => (workspace, .error failure)

/-- `apply`: what becomes of the workspace, and the revised cases or the refusal. -/
def apply (depth : Option Nat) (cases : List Value) (raw : Text) : Workspace × Outcome (List Value) :=
  match parse depth raw with
  | .error failure => (⟨cases, cases⟩, .error failure)
  | .ok edits =>
      let run := applyEdits edits ⟨cases, cases⟩
      (run.1, run.2.map fun _ => run.1.result)

/-! What an accepted assertion keeps. -/

/-- An assertion and what takes its place: the same parameters, each of the same
type, and the same `type`. -/
def Kept (before after : Value) : Prop :=
  ∃ previous updated, before = .object previous ∧ after = .object updated ∧
    (∀ name, (updated.lookup name).isSome = (previous.lookup name).isSome) ∧
    updated.lookup (text "type") = previous.lookup (text "type") ∧
    ∀ name value other, previous.lookup name = some value → updated.lookup name = some other → value.sameKind other = true

/-- The assertion enforces safety. -/
def Hard (assertion : Value) : Prop := ∃ kind, assertion.item "type" = .ok kind ∧ isHard kind = true

theorem refuseUnless_ok {condition : Prop} [Decidable condition] {message : String} {done : Unit} :
    refuseUnless condition message = .ok done ↔ condition := require_ok _ _ _

theorem asObject_some {value : Value} {fields : List (Text × Value)} : asObject value = some fields ↔ value = .object fields := by
  cases value <;> simp [asObject]

theorem asArray_some {value : Value} {items : List Value} : asArray value = some items ↔ value = .array items := by
  cases value <;> simp [asArray]

theorem compatible_kind {original updated : Value} (h : compatible original updated = true) :
    updated.sameKind original = true := (Bool.and_eq_true _ _ ▸ h).1

theorem sameKind_comm (value other : Value) : value.sameKind other = other.sameKind value := by
  cases value <;> cases other <;> rfl

theorem lookup_isSome {fields : List (Text × Value)} {name : Text} : (fields.lookup name).isSome = true ↔ name ∈ fields.map (·.1) := by
  rw [Option.isSome_iff_exists]
  constructor
  · rintro ⟨value, hValue⟩
    exact List.mem_map_of_mem (f := (·.1)) (mem_of_lookup hValue)
  · intro hMem
    by_contra hNone
    obtain ⟨field, hField, rfl⟩ := List.mem_map.mp hMem
    have hEmpty : fields.lookup field.1 = none := Option.eq_none_iff_forall_ne_some.mpr fun value hValue => hNone ⟨value, hValue⟩
    rw [List.lookup_eq_none_iff] at hEmpty
    exact absurd rfl (bne_iff_ne.mp (hEmpty field hField))

/-- An assertion that is accepted is kept, and one that enforces safety is equal. -/
theorem checkAssertion_ok {before after : Value} (h : checkAssertion before after = .ok ()) :
    Kept before after ∧ (Hard before → equal before after = true) := by
  simp only [checkAssertion, bind_ok, demand_ok, native_ok, refuseUnless_ok, asObject_some] at h
  obtain ⟨updated, rfl, previous, rfl, -, hNames, kind, hKind, -, hType, ⟨⟩, hHashable, -, hHard, hCompatible⟩ := h
  rw [require_ok] at hHashable
  rw [sameNames, decide_eq_true_eq] at hNames
  rw [List.all_eq_true] at hCompatible
  have hKinds : ∀ name value other, previous.lookup name = some value → updated.lookup name = some other →
      value.sameKind other = true := by
    intro name value other hValue hOther
    have hField := hCompatible _ (mem_of_lookup hValue)
    rw [hOther, Option.any_some] at hField
    exact sameKind_comm other value ▸ compatible_kind hField
  have hSome : ∀ name, (updated.lookup name).isSome = (previous.lookup name).isSome := by
    intro name
    rw [Bool.eq_iff_iff, lookup_isSome, lookup_isSome]
    exact ⟨fun hMem => hNames.2 hMem, fun hMem => hNames.1 hMem⟩
  refine ⟨⟨previous, updated, rfl, rfl, hSome, ?_, hKinds⟩, fun hSafety => ?_⟩
  · have hOther : (updated.lookup (text "type")).isSome = true := by rw [hSome, hKind]; rfl
    obtain ⟨other, hOther⟩ := Option.isSome_iff_exists.mp hOther
    rw [hOther, Option.getD_some, equal, alike_flat hHashable] at hType
    rw [hKind, hOther, eq_of_same hHashable hType (hKinds _ _ _ hKind hOther)]
  · obtain ⟨found, hFound, hSafe⟩ := hSafety
    rw [Value.item, demand_ok, hKind] at hFound
    obtain rfl := Option.some.inj hFound
    exact hHard hSafe

/-! What an accepted revision of a case keeps. -/

/-- Two dictionaries differ at most at these keys. -/
def DiffersAt (names : List String) (before after : Value) : Prop :=
  ∃ fields others, before = .object fields ∧ after = .object others ∧
    ∀ key, key ∉ names.map text → others.lookup key = fields.lookup key

/-- The assertions of a case. -/
def assertionsOf (case : Value) : Except Fault (List Value) := do
  let expected ← case.item "expected"
  let assertions ← expected.item "assertions"
  assertions.elements

/-- A generation case and what an edit makes of it. -/
structure Revision (edit : CaseEdit) (case after : Value) : Prop where
  generation : case.item "stage" = .ok (.string (text "generation"))
  title : after.item "title" = .ok (.string edit.title)
  purpose : after.item "purpose" = .ok (.string edit.purpose)
  payload : after.item "provider_payload" = .ok (.object edit.providerPayload)
  others : DiffersAt ["title", "purpose", "provider_payload", "expected"] case after
  expected : ∃ before found, case.item "expected" = .ok before ∧ after.item "expected" = .ok found ∧
    DiffersAt ["assertions"] before found
  assertions : ∃ previous, assertionsOf case = .ok previous ∧ assertionsOf after = .ok edit.assertions ∧
    List.Forall₂ (fun before after => Kept before after ∧ (Hard before → equal before after = true)) previous edit.assertions

theorem isText_true {value : Value} {word : Text} : value.isText word = true ↔ value = .string word := by
  cases value <;> simp [Value.isText]

theorem item_object {value found : Value} {name : String} (h : value.item name = .ok found) :
    ∃ fields, value = .object fields ∧ fields.lookup (text name) = some found := by
  cases value with
  | object fields => exact ⟨fields, rfl, (demand_ok _ _ _).mp h⟩
  | _ => cases h

theorem differsAt_assign {value : Value} {fields : List (Text × Value)} (hValue : value = .object fields) (name : String)
    (new : Value) : DiffersAt [name] value (assign value name new) := by
  subst hValue
  refine ⟨fields, _, rfl, rfl, fun key hKey => ?_⟩
  rw [insert_lookup, if_neg]
  simpa using hKey

theorem checkAssertions_ok {previous updated : List Value} (hLength : previous.length = updated.length)
    (h : (previous.zip updated).forM (fun pair => checkAssertion pair.1 pair.2) = .ok ()) :
    List.Forall₂ (fun before after => Kept before after ∧ (Hard before → equal before after = true)) previous updated := by
  rw [forM_ok] at h
  rw [List.forall₂_iff_zip]
  exact ⟨hLength, fun hMem => checkAssertion_ok (h _ hMem)⟩

theorem reviseCase_ok {edit : CaseEdit} {case after : Value} (h : reviseCase edit case = .ok after) :
    Revision edit case after := by
  simp only [reviseCase, bind_ok, native_ok, refuseUnless_ok, pure_ok] at h
  obtain ⟨stage, hStage, -, hGeneration, expected, hExpected, held, hHeld, previous, hPrevious, -, hLength, ⟨⟩, hChecked, rfl⟩ := h
  obtain ⟨fields, rfl, hField⟩ := item_object hExpected
  obtain ⟨inner, rfl, hInner⟩ := item_object hHeld
  rw [isText_true] at hGeneration
  subst hGeneration
  have hRevised : ∀ key, (insert (insert (insert (insert fields (text "title") (.string edit.title)) (text "purpose")
      (.string edit.purpose)) (text "provider_payload") (.object edit.providerPayload)) (text "expected")
      (.object (insert inner (text "assertions") (.array edit.assertions)))).lookup key =
      if key = text "expected" then some (.object (insert inner (text "assertions") (.array edit.assertions)))
      else if key = text "provider_payload" then some (.object edit.providerPayload)
      else if key = text "purpose" then some (.string edit.purpose)
      else if key = text "title" then some (.string edit.title)
      else fields.lookup key := by
    intro key
    rw [insert_lookup, insert_lookup, insert_lookup, insert_lookup]
  have hExpectedAfter : (revised edit (.object fields) (.object inner)).item "expected" =
      .ok (.object (insert inner (text "assertions") (.array edit.assertions))) :=
    (demand_ok _ _ _).mpr ((hRevised _).trans (if_pos rfl))
  refine ⟨hStage, ?_, ?_, ?_, ⟨fields, _, rfl, rfl, fun key hKey => ?_⟩,
    ⟨_, _, hExpected, hExpectedAfter, differsAt_assign rfl "assertions" _⟩, previous, ?_, ?_,
    checkAssertions_ok hLength hChecked⟩
  · exact (demand_ok _ _ _).mpr ((hRevised _).trans (by simp [text_inj]))
  · exact (demand_ok _ _ _).mpr ((hRevised _).trans (by simp [text_inj]))
  · exact (demand_ok _ _ _).mpr ((hRevised _).trans (by simp [text_inj]))
  · simp only [List.map_cons, List.map_nil, List.mem_cons, List.not_mem_nil, or_false, not_or] at hKey
    obtain ⟨hTitle, hPurpose, hPayload, hExpectedKey⟩ := hKey
    exact (hRevised key).trans
      (by rw [if_neg hExpectedKey, if_neg hPayload, if_neg hPurpose, if_neg hTitle])
  · rw [assertionsOf, hExpected, ok_bind, hHeld, ok_bind, hPrevious]
  · have hAssertions : (Value.object (insert inner (text "assertions") (.array edit.assertions))).item "assertions" =
        .ok (.array edit.assertions) := (demand_ok _ _ _).mpr ((insert_lookup _ _ _ _).trans (if_pos rfl))
    rw [assertionsOf, hExpectedAfter, ok_bind, hAssertions, ok_bind, Value.elements]

/-! Runs. -/

/-- The case has this name. -/
def named (caseId : Text) (case : Value) : Bool := (case.item "case_id").toOption.any (·.isText caseId)

theorem item_differs {names : List String} {before after : Value} (h : DiffersAt names before after) {name : String}
    (hName : name ∉ names) : after.item name = before.item name := by
  obtain ⟨fields, others, rfl, rfl, hSame⟩ := h
  rw [Value.item, Value.item, hSame]
  intro hMem
  obtain ⟨other, hOther, hText⟩ := List.mem_map.mp hMem
  exact hName (text_inj.mp hText ▸ hOther)

theorem Revision.caseId {edit : CaseEdit} {case after : Value} (h : Revision edit case after) :
    after.item "case_id" = case.item "case_id" := item_differs h.others (by decide)

theorem Revision.named {edit : CaseEdit} {case after : Value} (h : Revision edit case after) (caseId : Text) :
    named caseId after = named caseId case := by
  rw [CaseEdits.named, CaseEdits.named, h.caseId]

/-- A case has one name. -/
theorem named_unique {first second : Text} {case : Value} (hFirst : named first case = true)
    (hSecond : named second case = true) : first = second := by
  rw [named, Option.any_eq_true] at hFirst hSecond
  obtain ⟨value, hValue, hText⟩ := hFirst
  obtain ⟨other, hOther, hText'⟩ := hSecond
  rw [hValue] at hOther
  obtain rfl := Option.some.inj hOther
  rw [isText_true] at hText hText'
  exact Value.string.inj (hText.symm.trans hText')

/-- An edit rewrites the first case of its name. -/
theorem reviseFirst_ok {edit : CaseEdit} {cases result : List Value} (h : reviseFirst edit cases = .ok result) :
    ∃ before case rest after, cases = before ++ case :: rest ∧ (∀ item ∈ before, named edit.caseId item = false) ∧
      named edit.caseId case = true ∧ reviseCase edit case = .ok after ∧ result = before ++ after :: rest := by
  induction cases generalizing result with
  | nil => cases h
  | cons case rest ih =>
      rw [reviseFirst, bind_ok] at h
      obtain ⟨caseId, hCaseId, h⟩ := h
      rw [native_ok] at hCaseId
      split at h
      · rename_i hName
        rw [bind_ok] at h
        obtain ⟨after, hAfter, h⟩ := h
        cases h
        exact ⟨[], case, rest, after, rfl, nofun, by rw [named, hCaseId]; exact hName, hAfter, rfl⟩
      · rename_i hName
        rw [bind_ok] at h
        obtain ⟨others, hOthers, h⟩ := h
        cases h
        obtain ⟨before, found, tail, after, rfl, hBefore, hFound, hAfter, rfl⟩ := ih hOthers
        refine ⟨case :: before, found, tail, after, rfl, List.forall_mem_cons.mpr ⟨?_, hBefore⟩, hFound, hAfter, rfl⟩
        rw [named, hCaseId]
        exact Bool.not_eq_true _ ▸ hName

/-- What a run of edits makes of the cases: each is left as it is or revised by the
edit of its name, and each edit revises a case. -/
structure Revised (edits : List CaseEdit) (cases result : List Value) : Prop where
  length : cases.length = result.length
  pairs : ∀ pair ∈ cases.zip result, pair.2 = pair.1 ∨
    ∃ edit ∈ edits, cases.find? (named edit.caseId) = some pair.1 ∧ reviseCase edit pair.1 = .ok pair.2
  targets : ∀ edit ∈ edits, ∃ pair ∈ cases.zip result,
    cases.find? (named edit.caseId) = some pair.1 ∧ reviseCase edit pair.1 = .ok pair.2

/-- One edit before a run of others. -/
theorem Revised.cons {edit : CaseEdit} {edits : List CaseEdit} {cases next result : List Value}
    (hNext : reviseFirst edit cases = .ok next) (hFresh : ∀ other ∈ edits, other.caseId ≠ edit.caseId)
    (h : Revised edits next result) : Revised (edit :: edits) cases result := by
  obtain ⟨before, case, rest, after, rfl, hBefore, hNamed, hAfter, rfl⟩ := reviseFirst_ok hNext
  have hRevision := reviseCase_ok hAfter
  have hNamedAfter : named edit.caseId after = true := (hRevision.named _).trans hNamed
  have hFound : (before ++ case :: rest).find? (named edit.caseId) = some case := by
    rw [List.find?_append, List.find?_eq_none.mpr fun item hMem => by rw [hBefore item hMem]; exact Bool.false_ne_true,
      List.find?_cons_of_pos hNamed, Option.none_or]
  -- the other edits look past the case that was revised
  have hOther : ∀ other ∈ edits, (before ++ case :: rest).find? (named other.caseId) =
      (before ++ after :: rest).find? (named other.caseId) := by
    intro other hMem
    have hCase : ¬ named other.caseId case = true := fun hSame => hFresh other hMem (named_unique hSame hNamed)
    have hAfter : ¬ named other.caseId after = true := fun hSame => hFresh other hMem (named_unique hSame hNamedAfter)
    rw [List.find?_append, List.find?_append, List.find?_cons_of_neg hCase, List.find?_cons_of_neg hAfter]
  obtain ⟨hLength, hPairs, hTargets⟩ := h
  obtain ⟨first, last, rfl, hFirst⟩ : ∃ first last, result = first ++ last ∧ before.length = first.length :=
    ⟨result.take before.length, result.drop before.length, (List.take_append_drop _ _).symm, by
      rw [List.length_take, ← hLength, List.length_append]
      omega⟩
  obtain ⟨final, tail, rfl⟩ : ∃ final tail, last = final :: tail := by
    cases last with
    | nil =>
        rw [List.length_append, List.length_append, List.length_cons, List.length_nil] at hLength
        omega
    | cons final tail => exact ⟨final, tail, rfl⟩
  rw [List.zip_append hFirst, List.zip_cons_cons] at hPairs hTargets
  -- the case that was revised is not revised again
  have hFinal : final = after := by
    rcases hPairs (after, final) (by simp) with hSame | ⟨other, hMem, hFind, -⟩
    · exact hSame
    · exact absurd (named_unique (List.find?_some hFind) hNamedAfter) (hFresh other hMem)
  subst hFinal
  have hPlaces : ∀ pair : Value × Value, pair ∈ (before ++ case :: rest).zip (first ++ final :: tail) ↔
      pair = (case, final) ∨ pair ∈ before.zip first ++ rest.zip tail := by
    intro pair
    rw [List.zip_append hFirst, List.zip_cons_cons, List.mem_append, List.mem_cons, List.mem_append]
    exact or_left_comm
  have hPlaced : ∀ pair ∈ before.zip first ++ rest.zip tail, pair ∈ before.zip first ++ (final, final) :: rest.zip tail := by
    intro pair hMem
    rw [List.mem_append] at hMem ⊢
    exact hMem.imp_right fun hTail => List.mem_cons_of_mem _ hTail
  refine ⟨?_, fun pair hMem => ?_, List.forall_mem_cons.mpr ⟨?_, fun other hMem => ?_⟩⟩
  · rw [← hLength, List.length_append, List.length_append, List.length_cons, List.length_cons]
  · rcases (hPlaces pair).mp hMem with rfl | hPair
    · exact .inr ⟨edit, List.mem_cons_self, hFound, hAfter⟩
    · refine (hPairs pair (hPlaced pair hPair)).imp_right ?_
      rintro ⟨other, hEdit, hFind, hRevised⟩
      exact ⟨other, List.mem_cons_of_mem _ hEdit, (hOther other hEdit).trans hFind, hRevised⟩
  · exact ⟨(case, final), (hPlaces _).mpr (.inl rfl), hFound, hAfter⟩
  · obtain ⟨pair, hPair, hFind, hRevised⟩ := hTargets other hMem
    refine ⟨pair, (hPlaces pair).mpr (.inr ?_), (hOther other hMem).trans hFind, hRevised⟩
    rw [List.mem_append, List.mem_cons] at hPair
    rw [List.mem_append]
    refine hPair.imp_right fun hTail => hTail.resolve_left ?_
    rintro rfl
    exact hFresh other hMem (named_unique (List.find?_some hFind) hNamedAfter)

theorem Revised.nil (cases : List Value) : Revised [] cases cases where
  length := rfl
  pairs pair hMem := by
    have hZip : cases.zip cases = cases.map fun case => (case, case) := List.zipWith_self
    rw [hZip] at hMem
    obtain ⟨case, -, rfl⟩ := List.mem_map.mp hMem
    exact .inl rfl
  targets := nofun

/-- A run of edits with different names. -/
theorem applyEdits_ok {edits : List CaseEdit} {workspace final : Workspace}
    (h : applyEdits edits workspace = (final, .ok ())) (hDistinct : (edits.map (·.caseId)).Nodup) :
    Revised edits workspace.result final.result := by
  induction edits generalizing workspace with
  | nil =>
      cases h
      exact .nil _
  | cons edit edits ih =>
      rw [applyEdits] at h
      rw [List.map_cons, List.nodup_cons] at hDistinct
      cases hNext : reviseFirst edit workspace.result with
      | error failure =>
          rw [hNext] at h
          cases h
      | ok next =>
          rw [hNext] at h
          refine (ih h hDistinct.2).cons hNext fun other hMem hSame => hDistinct.1 ?_
          exact hSame ▸ List.mem_map_of_mem hMem

/-- A run never touches the cases of the caller. -/
theorem applyEdits_cases (edits : List CaseEdit) (workspace : Workspace) :
    (applyEdits edits workspace).1.cases = workspace.cases := by
  induction edits generalizing workspace with
  | nil => rfl
  | cons edit edits ih =>
      rw [applyEdits]
      cases reviseFirst edit workspace.result with
      | error failure => rfl
      | ok next => exact ih _

/-! Edits as they are read. -/

theorem parseEdit_fresh {seen : List Text} {value : Value} {edit : CaseEdit} (h : parseEdit seen value = .ok edit) :
    edit.caseId ∉ seen := by
  simp only [parseEdit, bind_ok, demand_ok, refuseUnless_ok, pure_ok] at h
  obtain ⟨fields, -, -, -, caseId, -, title, -, purpose, -, -, hFresh, payload, -, assertions, -, rfl⟩ := h
  exact hFresh

/-- What is read from a well formed value is well formed. -/
theorem parseEdit_wellFormed {seen : List Text} {value : Value} {edit : CaseEdit} (h : parseEdit seen value = .ok edit)
    (hWell : value.WellFormed) : ∀ assertion ∈ edit.assertions, assertion.WellFormed := by
  simp only [parseEdit, bind_ok, demand_ok, refuseUnless_ok, pure_ok, asObject_some, Option.bind_eq_some_iff, asArray_some] at h
  obtain ⟨fields, rfl, -, -, caseId, -, title, -, purpose, -, -, -, payload, -, assertions, ⟨items, hItems, rfl⟩, rfl⟩ := h
  exact wellFormed_array.mp (hWell.ofLookup hItems)

theorem parseEdits_ok {seen : List Text} {values : List Value} {edits : List CaseEdit}
    (h : parseEdits seen values = .ok edits) (hWell : ∀ value ∈ values, value.WellFormed) :
    (edits.map (·.caseId)).Nodup ∧ (∀ edit ∈ edits, edit.caseId ∉ seen) ∧
      ∀ edit ∈ edits, ∀ assertion ∈ edit.assertions, assertion.WellFormed := by
  induction values generalizing seen edits with
  | nil =>
      cases h
      exact ⟨List.nodup_nil, nofun, nofun⟩
  | cons value values ih =>
      simp only [parseEdits, bind_ok, pure_ok] at h
      obtain ⟨edit, hEdit, others, hOthers, rfl⟩ := h
      obtain ⟨hHead, hTail⟩ := List.forall_mem_cons.mp hWell
      obtain ⟨hDistinct, hFresh, hAssertions⟩ := ih hOthers hTail
      refine ⟨?_, List.forall_mem_cons.mpr ⟨parseEdit_fresh hEdit, fun other hMem hSeen => ?_⟩,
        List.forall_mem_cons.mpr ⟨parseEdit_wellFormed hEdit hHead, hAssertions⟩⟩
      · rw [List.map_cons, List.nodup_cons]
        refine ⟨fun hMem => ?_, hDistinct⟩
        obtain ⟨other, hOther, hSame⟩ := List.mem_map.mp hMem
        exact hFresh other hOther (hSame ▸ List.mem_cons_self)
      · exact hFresh other hMem (List.mem_cons_of_mem _ hSeen)

theorem editValues_wellFormed {depth : Option Nat} {raw : Text} {values : List Value} (h : editValues depth raw = .ok values) :
    ∀ value ∈ values, value.WellFormed := by
  simp only [editValues, bind_ok, native_ok, demand_ok, refuseUnless_ok] at h
  obtain ⟨encoded, -, -, -, h⟩ := h
  split at h
  · cases h
    intro value hMem
    cases hMem
  · simp only [bind_ok, native_ok, demand_ok, refuseUnless_ok, asArray_some, pure_ok, mapError_ok] at h
    obtain ⟨found, hFound, items, rfl, -, -, rfl⟩ := h
    exact wellFormed_array.mp (loads_distinct_wellFormed hFound)

theorem parse_ok {depth : Option Nat} {raw : Text} {edits : List CaseEdit} (h : parse depth raw = .ok edits) :
    (edits.map (·.caseId)).Nodup ∧ ∀ edit ∈ edits, ∀ assertion ∈ edit.assertions, assertion.WellFormed := by
  rw [parse, bind_ok] at h
  obtain ⟨values, hValues, hEdits⟩ := h
  obtain ⟨hDistinct, -, hAssertions⟩ := parseEdits_ok hEdits (editValues_wellFormed hValues)
  exact ⟨hDistinct, hAssertions⟩

/-! Revised suites. -/

/-- The cases keep their names and their order, and only generation cases that an
edit names are revised. -/
structure Faithful (cases : List Value) (edits : List CaseEdit) (result : List Value) : Prop where
  ids : List.Forall₂ (fun case after => after.item "case_id" = case.item "case_id") cases result
  unnamed : List.Forall₂ (fun case after => (∀ edit ∈ edits, named edit.caseId case = false) → after = case) cases result
  others : List.Forall₂ (fun case after => case.item "stage" ≠ .ok (.string (text "generation")) → after = case) cases result
  revised : List.Forall₂ (fun case after => after = case ∨
    ∃ edit ∈ edits, named edit.caseId case = true ∧ Revision edit case after) cases result

/-- The assertions that enforce safety are the same values of the same types. -/
def HardIntact (cases result : List Value) : Prop :=
  List.Forall₂ (fun case after => after = case ∨ ∃ previous updated, assertionsOf case = .ok previous ∧
    assertionsOf after = .ok updated ∧
      List.Forall₂ (fun before after => Hard before → identical before after = true) previous updated) cases result

/-- The edits write the values inside such assertions with the types that they have. -/
def KindsKept (cases : List Value) (edits : List CaseEdit) : Prop :=
  ∀ edit ∈ edits, ∀ case, cases.find? (named edit.caseId) = some case → ∀ previous, assertionsOf case = .ok previous →
    List.Forall₂ (fun before after => Hard before → sameKinds before after = true) previous edit.assertions

def hardAssertion (assertion : Value) : Bool := (assertion.item "type").toOption.any isHard

theorem hardAssertion_iff {assertion : Value} : hardAssertion assertion = true ↔ Hard assertion := by
  rw [hardAssertion, Hard]
  cases assertion.item "type" with
  | error fault => simp [Except.toOption]
  | ok kind => simp [Except.toOption]

/-- `KindsKept` as a computation. -/
def keepsKinds (cases : List Value) (edits : List CaseEdit) : Bool :=
  edits.all fun edit => (cases.find? (named edit.caseId)).all fun case => (assertionsOf case).toOption.all fun previous =>
    decide (previous.length = edit.assertions.length) &&
      (previous.zip edit.assertions).all fun pair => !hardAssertion pair.1 || sameKinds pair.1 pair.2

theorem keepsKinds_iff {cases : List Value} {edits : List CaseEdit} : keepsKinds cases edits = true ↔ KindsKept cases edits := by
  rw [keepsKinds, List.all_eq_true]
  refine forall₂_congr fun edit hEdit => ?_
  rw [Option.all_eq_true]
  refine forall₂_congr fun case hCase => ?_
  have hPairs : ∀ previous, (decide (previous.length = edit.assertions.length) &&
      (previous.zip edit.assertions).all fun pair => !hardAssertion pair.1 || sameKinds pair.1 pair.2) = true ↔
      List.Forall₂ (fun before after => Hard before → sameKinds before after = true) previous edit.assertions := by
    intro previous
    rw [Bool.and_eq_true, decide_eq_true_eq, List.all_eq_true, List.forall₂_iff_zip]
    refine and_congr_right fun _ => ⟨fun h before after hMem hHard => ?_, fun h pair hMem => ?_⟩
    · simpa [hardAssertion_iff.mpr hHard] using h _ hMem
    · rw [Bool.or_eq_true, Bool.not_eq_true', ← Bool.not_eq_true, hardAssertion_iff]
      exact or_iff_not_imp_left.mpr fun hHard => h hMem (not_not.mp hHard)
  cases assertionsOf case with
  | error fault => simp [Except.toOption]
  | ok previous => simpa [Except.toOption] using hPairs previous

namespace Revised

variable {edits : List CaseEdit} {cases result : List Value} (h : Revised edits cases result)

include h

/-- What holds of a case that is left and of one that is revised holds of all. -/
theorem each {R : Value → Value → Prop} (hLeft : ∀ case ∈ cases, R case case)
    (hRevised : ∀ edit ∈ edits, ∀ case after, cases.find? (named edit.caseId) = some case → Revision edit case after → R case after) :
    List.Forall₂ R cases result := by
  rw [List.forall₂_iff_zip]
  refine ⟨h.length, fun {case after} hMem => ?_⟩
  rcases h.pairs _ hMem with hSame | ⟨edit, hEdit, hFind, hAfter⟩
  · obtain rfl : after = case := hSame
    exact hLeft _ (List.of_mem_zip hMem).1
  · exact hRevised edit hEdit case after hFind (reviseCase_ok hAfter)

theorem faithful : Faithful cases edits result where
  ids := h.each (fun _ _ => rfl) fun _ _ _ _ _ hRevision => hRevision.caseId
  unnamed := by
    refine h.each (fun _ _ _ => rfl) fun edit hEdit case after hFind _ hNone => ?_
    have hNamed := List.find?_some hFind
    rw [hNone edit hEdit] at hNamed
    cases hNamed
  others := h.each (fun _ _ _ => rfl) fun _ _ _ _ _ hRevision hStage => absurd hRevision.generation hStage
  revised := h.each (fun _ _ => .inl rfl) fun edit hEdit _ _ hFind hRevision =>
    .inr ⟨edit, hEdit, List.find?_some hFind, hRevision⟩

/-- Safety assertions are intact exactly when no edit changes a type inside them. -/
theorem hardIntact_iff (hWell : ∀ edit ∈ edits, ∀ assertion ∈ edit.assertions, assertion.WellFormed) :
    HardIntact cases result ↔ KindsKept cases edits := by
  constructor
  · intro hIntact edit hEdit case hFind previous hPrevious
    obtain ⟨⟨found, after⟩, hMem, hFound, hAfter⟩ := h.targets edit hEdit
    rw [hFind] at hFound
    obtain rfl : case = found := Option.some.inj hFound
    obtain ⟨before, hBefore, hUpdated, hKept⟩ := (reviseCase_ok hAfter).assertions
    rw [hPrevious] at hBefore
    obtain rfl := Except.ok.inj hBefore
    rcases (List.forall₂_iff_zip.mp hIntact).2 hMem with rfl | ⟨before, updated, hBefore, hAfter', hIdentical⟩
    · rw [hPrevious] at hUpdated
      obtain rfl := Except.ok.inj hUpdated
      rw [List.forall₂_same]
      exact fun assertion hAssertion _ => sameKinds_self assertion (hWell edit hEdit assertion hAssertion)
    · rw [hPrevious] at hBefore
      rw [hUpdated] at hAfter'
      obtain rfl := Except.ok.inj hBefore
      obtain rfl := Except.ok.inj hAfter'
      exact hIdentical.imp fun _ _ hSame hHard => (identical_iff.mp (hSame hHard)).2
  · intro hKinds
    refine h.each (fun _ _ => .inl rfl) fun edit hEdit case after hFind hRevision => .inr ?_
    obtain ⟨previous, hPrevious, hUpdated, hKept⟩ := hRevision.assertions
    refine ⟨previous, edit.assertions, hPrevious, hUpdated, ?_⟩
    have hSame := hKinds edit hEdit case hFind previous hPrevious
    rw [List.forall₂_iff_zip] at hKept hSame ⊢
    exact ⟨hKept.1, fun hMem hHard => identical_iff.mpr ⟨(hKept.2 hMem).2 hHard, hSame.2 hMem hHard⟩⟩

end Revised

theorem apply_ok {depth : Option Nat} {cases result : List Value} {raw : Text} {edits : List CaseEdit}
    (hParse : parse depth raw = .ok edits) (h : (apply depth cases raw).2 = .ok result) : Revised edits cases result := by
  rw [apply, hParse] at h
  simp only at h
  generalize hRun : applyEdits edits ⟨cases, cases⟩ = run at h
  obtain ⟨workspace, outcome⟩ := run
  cases outcome with
  | error failure => cases h
  | ok done =>
      cases h
      exact applyEdits_ok hRun (parse_ok hParse).1

theorem apply_cases (depth : Option Nat) (cases : List Value) (raw : Text) : (apply depth cases raw).1.cases = cases := by
  unfold apply
  split
  · rfl
  · exact applyEdits_cases _ _

/-- A revision that is accepted revises the generation cases that it names and
nothing else; their assertions keep their number, order, types, names and types of
parameters, and those that enforce safety are intact exactly when the edit writes the
values inside them with the types that they have. The cases of the caller stay. -/
theorem case_revisions (depth : Option Nat) (cases : List Value) (raw : Text) : (apply depth cases raw).1.cases = cases ∧
    ∀ edits result, parse depth raw = .ok edits → (apply depth cases raw).2 = .ok result →
      Faithful cases edits result ∧ (HardIntact cases result ↔ KindsKept cases edits) := by
  refine ⟨apply_cases depth cases raw, fun edits result hParse hResult => ?_⟩
  have hRevised := apply_ok hParse hResult
  exact ⟨hRevised.faithful, hRevised.hardIntact_iff (parse_ok hParse).2⟩

/-! A case with a bound inside a safety assertion. -/

def boundedCase : Value :=
  let assertion := Value.object [(text "type", .string (text "forbid_dimension_group")),
    (text "group", .object [(text "minimum", .int 1)])]
  .object [(text "case_id", .string (text "c1")), (text "stage", .string (text "generation")),
    (text "title", .string (text "before")), (text "purpose", .string (text "before")), (text "provider_payload", .object []),
    (text "expected", .object [(text "assertions", .array [assertion])])]

/-- An edit of it that writes the bound in this way. -/
def boundEdit (minimum : String) : Text :=
  text ("[\x7b\"case_id\":\"c1\",\"title\":\"after\",\"purpose\":\"after\",\"provider_payload\":\x7b\x7d,\"assertions\":" ++
    "[\x7b\"type\":\"forbid_dimension_group\",\"group\":\x7b\"minimum\":" ++ minimum ++ "\x7d\x7d]\x7d]")

theorem boundEdit_text (minimum : String) : boundEdit minimum =
    text "[\x7b\"case_id\":\"c1\",\"title\":\"after\",\"purpose\":\"after\",\"provider_payload\":\x7b\x7d,\"assertions\":" ++
      text "[\x7b\"type\":\"forbid_dimension_group\",\"group\":\x7b\"minimum\":" ++ text minimum ++ text "\x7d\x7d]\x7d]" := by
  rw [boundEdit, text_append, text_append, text_append]

/-- An accepted edit of the case, and whether it keeps the types inside. -/
theorem boundEdit_ok (minimum : String) (keeps : Bool) (hParse : (parse none (boundEdit minimum)).toBool = true)
    (hApply : (apply none [boundedCase] (boundEdit minimum)).2.toBool = true)
    (hKinds : ((parse none (boundEdit minimum)).toOption.all fun edits => keepsKinds [boundedCase] edits == keeps) = true) :
    ∃ edits result, parse none (boundEdit minimum) = .ok edits ∧ (apply none [boundedCase] (boundEdit minimum)).2 = .ok result ∧
      (KindsKept [boundedCase] edits ↔ keeps = true) := by
  obtain ⟨edits, hEdits⟩ := exists_ok hParse
  obtain ⟨result, hResult⟩ := exists_ok hApply
  refine ⟨edits, result, hEdits, hResult, ?_⟩
  rw [hEdits] at hKinds
  rw [← keepsKinds_iff, eq_of_beq (show (keepsKinds [boundedCase] edits == keeps) = true from hKinds)]

theorem case_revisions_kept : ∃ edits result, parse none (boundEdit "1") = .ok edits ∧
    (apply none [boundedCase] (boundEdit "1")).2 = .ok result ∧ Faithful [boundedCase] edits result ∧
      HardIntact [boundedCase] result := by
  have hText := boundEdit_text "1"
  repeat rw [text_ofList] at hText
  obtain ⟨edits, result, hParse, hResult, hKinds⟩ :=
    boundEdit_ok "1" true (by rw [hText]; decide +kernel) (by rw [hText]; decide +kernel) (by rw [hText]; decide +kernel)
  obtain ⟨hFaithful, hIntact⟩ := (case_revisions none [boundedCase] (boundEdit "1")).2 edits result hParse hResult
  exact ⟨edits, result, hParse, hResult, hFaithful, hIntact.mpr (hKinds.mpr rfl)⟩

/-- The bound of a safety assertion becomes a truth value. -/
theorem bound_retyped : ∃ edits result, parse none (boundEdit "true") = .ok edits ∧
    (apply none [boundedCase] (boundEdit "true")).2 = .ok result ∧ ¬ HardIntact [boundedCase] result := by
  have hText := boundEdit_text "true"
  repeat rw [text_ofList] at hText
  obtain ⟨edits, result, hParse, hResult, hKinds⟩ :=
    boundEdit_ok "true" false (by rw [hText]; decide +kernel) (by rw [hText]; decide +kernel) (by rw [hText]; decide +kernel)
  refine ⟨edits, result, hParse, hResult, fun hIntact => ?_⟩
  have hKept := ((apply_ok hParse hResult).hardIntact_iff (parse_ok hParse).2).mp hIntact
  exact Bool.false_ne_true (hKinds.mp hKept)

end CaseEdits

end QsAi
