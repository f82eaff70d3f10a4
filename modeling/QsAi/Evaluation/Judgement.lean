import QsAi.Foundation.Codec
import QsAi.Text

/-! The judge's document. A judge answers in JSON; the frozen schema fixes the
names, the ranges and the lengths, and reads a number without a fraction as an
integer however it is spelled. -/
namespace QsAi

open Guarded Keyed PyJson

inductive AssertionScope
  | default
  | case
deriving DecidableEq, Repr

inductive AssertionStatus
  | passed
  | failed
  | pendingSemantic
  | blocked
deriving DecidableEq, Repr

/-- An assertion is named by its type, its scope and its position there. -/
abbrev AssertionKey := String × AssertionScope × Nat

instance assertionKey_lawfulBEq : LawfulBEq AssertionKey := inferInstance

/-- Whether a number was spelled without a fraction and an exponent. Only then
the reader yields an `int`. -/
inductive Spelling
  | integer
  | decimal
deriving DecidableEq, Repr

/-- One decision as the judge returned it. -/
structure RawDecision where
  type : String
  scope : AssertionScope
  ordinal : Nat
  spelling : Spelling
  status : AssertionStatus
  detail : Text
deriving DecidableEq

def RawDecision.key (decision : RawDecision) : AssertionKey :=
  (decision.type, decision.scope, decision.ordinal)

structure Score where
  value : Int
  spelling : Spelling
deriving DecidableEq

/-- The judge's document: scores by name, a rationale and one decision each. -/
structure SemanticDocument where
  scores : List (String × Score)
  rationale : Text
  decisions : List RawDecision
deriving DecidableEq

/-- Scores as numbers, the way Python compares them. -/
def scoreNumbers (scores : List (String × Score)) : List (String × Int) :=
  scores.map fun score => (score.1, score.2.value)

def scoreNames : List String :=
  ["faithfulness", "cross_dimension_quality", "suggestion_actionability", "audience_clarity", "concision"]

/-! The schema of the document. -/

def schemaInteger (low high : Int) : Value → Option (Int × Spelling)
  | .int value => if low ≤ value ∧ value ≤ high then some (value, .integer) else none
  | .float value => do
      let value ← value.integer?
      if low ≤ value ∧ value ≤ high then some (value, .decimal) else none
  | _ => none

/-- A text without angle brackets. -/
def schemaText (maxLength : Nat) : Value → Option Text
  | .string value =>
      if 1 ≤ value.length ∧ value.length ≤ maxLength ∧ value.all (fun c => c != 60 && c != 62) then some value else none
  | _ => none

/-- A word of small letters, digits and underscores. The pattern is searched, so
one line break may follow it. -/
def schemaWord (maxLength : Nat) : Value → Option String
  | .string value =>
      let word := if value.getLast? = some 10 then value.dropLast else value
      match word with
      | [] => none
      | first :: rest =>
          if value.length ≤ maxLength ∧ 97 ≤ first ∧ first ≤ 122 ∧
              rest.all (fun c => (97 ≤ c && c ≤ 122) || (48 ≤ c && c ≤ 57) || c == 95) then encode value
          else none
  | _ => none

def schemaConst {α : Type} (choices : List (String × α)) : Value → Option α
  | .string value => (lookup (fun choice : String × α => text choice.1) choices value).map (·.2)
  | _ => none

def schemaScore (entry : Text × Value) : Option (String × Score) := do
  let name ← encode entry.1
  let (value, spelling) ← schemaInteger 1 5 entry.2
  some (name, ⟨value, spelling⟩)

def schemaScores : Value → Option (List (String × Score))
  | .object fields =>
      if fields.length = scoreNames.length ∧ ∀ name ∈ scoreNames, text name ∈ fields.map (·.1) then
        fields.mapM schemaScore
      else none
  | _ => none

def schemaDecision : Value → Option RawDecision
  | .object fields => do
      let type ← (member fields "type").bind (schemaWord 128)
      let scope ← (member fields "scope").bind
        (schemaConst [("default", AssertionScope.default), ("case", AssertionScope.case)])
      let (ordinal, spelling) ← (member fields "ordinal").bind (schemaInteger 1 32)
      let status ← (member fields "status").bind
        (schemaConst [("passed", AssertionStatus.passed), ("failed", AssertionStatus.failed)])
      let detail ← (member fields "detail").bind (schemaText 2000)
      if fields.length = 5 then some ⟨type, scope, ordinal.toNat, spelling, status, detail⟩ else none
  | _ => none

def schemaDecisions : Value → Option (List RawDecision)
  | .array items => if 1 ≤ items.length ∧ items.length ≤ 32 then items.mapM schemaDecision else none
  | _ => none

/-- The document that a value in the form of the schema holds. -/
def readJudgement : Value → Option SemanticDocument
  | .object fields => do
      let _ ← (member fields "schema_version").bind
        (schemaConst [("ai-explanation-semantic-evaluation-output/v1", ())])
      let scores ← (member fields "scores").bind schemaScores
      let rationale ← (member fields "rationale").bind (schemaText 4000)
      let decisions ← (member fields "decisions").bind schemaDecisions
      if fields.length = 4 then some ⟨scores, rationale, decisions⟩ else none
  | _ => none

/-! What the schema promises. -/

theorem schemaInteger_range {low high : Int} {value : Value} {found : Int × Spelling}
    (h : schemaInteger low high value = some found) : low ≤ found.1 ∧ found.1 ≤ high := by
  cases value with
  | int value =>
      rw [schemaInteger] at h
      split at h
      · rename_i hRange
        cases h
        exact hRange
      · cases h
  | float value =>
      rw [schemaInteger, Option.bind_eq_bind, Option.bind_eq_some_iff] at h
      obtain ⟨value, _, h⟩ := h
      split at h
      · rename_i hRange
        cases h
        exact hRange
      · cases h
  | _ => cases h

theorem schemaScore_name {entry : Text × Value} {score : String × Score} (h : schemaScore entry = some score) :
    encode entry.1 = some score.1 ∧ 1 ≤ score.2.value ∧ score.2.value ≤ 5 := by
  simp only [schemaScore, Option.bind_eq_bind, Option.bind_eq_some_iff] at h
  obtain ⟨name, hName, found, hFound, hScore⟩ := h
  cases hScore
  exact ⟨hName, schemaInteger_range hFound⟩

/-- The scores of the schema are the five named ones, each between one and
five. -/
theorem schemaScores_named {value : Value} {scores : List (String × Score)} (h : schemaScores value = some scores) :
    (scores.map (·.1)).Perm scoreNames ∧ ∀ score ∈ scores, 1 ≤ score.2.value ∧ score.2.value ≤ 5 := by
  cases value with
  | object fields =>
      rw [schemaScores] at h
      split at h
      swap
      · cases h
      rename_i hNames
      have hEach := mapM_some h
      have hKeys : (scoreNames.map text).Perm (fields.map (·.1)) := by
        refine (List.subperm_of_subset (by decide +kernel) ?_).perm_of_length_le ?_
        · intro key hKey
          obtain ⟨name, hName, rfl⟩ := List.mem_map.mp hKey
          exact hNames.2 name hName
        · simp [hNames.1]
      have hScores : scores.map (·.1) = ((fields.map (·.1)).map fun key => (encode key).getD "") ∧
          ∀ score ∈ scores, 1 ≤ score.2.value ∧ score.2.value ≤ 5 := by
        clear h hNames hKeys
        induction hEach with
        | nil => simp
        | cons hScore _ ih =>
            obtain ⟨hName, hRange⟩ := schemaScore_name hScore
            refine ⟨?_, List.forall_mem_cons.mpr ⟨hRange, ih.2⟩⟩
            rw [List.map_cons, List.map_cons, List.map_cons, ih.1, hName]
            rfl
      refine ⟨?_, hScores.2⟩
      rw [hScores.1]
      exact (hKeys.symm.map _).trans (List.Perm.of_eq (by decide +kernel))
  | _ => cases h

theorem readJudgement_scores {value : Value} {document : SemanticDocument} (h : readJudgement value = some document) :
    (document.scores.map (·.1)).Perm scoreNames ∧
    ∀ score ∈ document.scores, 1 ≤ score.2.value ∧ score.2.value ≤ 5 := by
  cases value with
  | object fields =>
      simp only [readJudgement, Option.bind_eq_bind, Option.bind_eq_some_iff] at h
      obtain ⟨_, _, scores, ⟨member, _, hScores⟩, rationale, _, decisions, _, hDocument⟩ := h
      split at hDocument
      · cases hDocument
        exact schemaScores_named hScores
      · cases hDocument
  | _ => cases h

end QsAi
