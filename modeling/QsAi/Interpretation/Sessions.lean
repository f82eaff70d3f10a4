import QsAi.Governance.Quotas

/-! Sessions of interpretation, the commands on them and the checks of what a
caller sends. -/
namespace QsAi

namespace Interpretation

inductive Status
  | created
  | queued
  | running
  | awaitingAnswer
  | blocked
  | cancelled
  | completed
deriving DecidableEq

structure Actor where
  orgId : String
  subjectId : String
deriving DecidableEq

structure Fact where
  ref : String
  value : String
deriving DecidableEq

structure EvidenceItem where
  assessmentId : String
  testeeId : String
  reportId : String
  sourceVersion : String
  facts : List Fact
deriving DecidableEq

structure EvidenceSet where
  id : String
  sessionId : String
  fingerprint : String
  items : List EvidenceItem
deriving DecidableEq

/-- How a request ends without a receipt. A fault is every exception that is no
answer to the caller: of the database, of a dependency or of the program. -/
inductive Refusal
  | rule (code : String)
  | rejected (code : String)
  | accessDenied
  | notFound
  | invalid
  | planConflict
  | fault (reason : String)
deriving DecidableEq

structure Session where
  id : String
  actor : Actor
  testeeId : String
  assessmentIds : List String
  goal : String
  status : Status := .created
  version : Nat := 1
  activeRunId : Option String := none
  currentQuestionId : Option String := none
  evidenceSetId : Option String := none
  workflowVersion : String := "interpretation-v1"
  failureCode : Option String := none
deriving DecidableEq

structure Receipt where
  sessionId : String
  runId : Option String
  status : Status
  version : Nat
deriving DecidableEq

def Session.receipt (session : Session) : Receipt :=
  ⟨session.id, session.activeRunId, session.status, session.version⟩

namespace Session

def usesPublishedSnapshot (session : Session) : Bool :=
  session.workflowVersion == "qs-published-snapshot-v1" || session.workflowVersion == "qs-published-snapshot-v2"

def usesQsSnapshot (session : Session) : Bool :=
  session.workflowVersion == "qs-snapshot-v1" || session.usesPublishedSnapshot

/-- A change that a session refuses with a code. -/
abbrev Change := Except Refusal Session

def queue (session : Session) (runId : String) (questionId : Option String) : Change :=
  let queued := { session with
    activeRunId := some runId, currentQuestionId := none, status := .queued, version := session.version + 1 }
  match questionId with
  | none => if session.status = .created then .ok queued else .error (.rule "invalid_state")
  | some question =>
      if session.status = .awaitingAnswer ∧ session.currentQuestionId = some question then .ok queued
      else .error (.rule "question_conflict")

def toRunning (session : Session) : Change :=
  if session.status = .queued ∨ session.status = .running then
    .ok { session with status := .running, version := session.version + 1 }
  else .error (.rule "invalid_state")

def retry (session : Session) (previousRunId newRunId : String) : Change :=
  if session.usesQsSnapshot = true ∧ session.status = .blocked ∧ session.activeRunId = some previousRunId ∧
      newRunId ≠ "" ∧ newRunId ≠ previousRunId then
    .ok { session with
      activeRunId := some newRunId, currentQuestionId := none, failureCode := none, status := .queued
      version := session.version + 1 }
  else .error (.rule "participant_retry_conflict")

def awaitAnswer (session : Session) (questionId : String) : Change :=
  if session.status = .running then
    .ok { session with
      currentQuestionId := some questionId, status := .awaitingAnswer, version := session.version + 1 }
  else .error (.rule "invalid_state")

def block (session : Session) (code : String) : Change :=
  if session.status = .running then
    .ok { session with status := .blocked, failureCode := some code, version := session.version + 1 }
  else .error (.rule "invalid_state")

def cancel (session : Session) : Change :=
  if session.status = .cancelled ∨ session.status = .completed then .error (.rule "invalid_state")
  else .ok { session with status := .cancelled, currentQuestionId := none, version := session.version + 1 }

def complete (session : Session) : Change :=
  if session.status = .running then
    .ok { session with
      status := .completed, failureCode := none, currentQuestionId := none, version := session.version + 1 }
  else .error (.rule "invalid_state")

end Session

/-! What a caller sends. -/

/-- Evidence covers exactly the assessments, all of one participant. -/
def validateEvidence (items : List EvidenceItem) (testeeId : String) (assessmentIds : List String) : Except Refusal Unit :=
  if items = [] ∨ items.length ≠ assessmentIds.length ∨
      ¬ ((∀ item ∈ items, item.assessmentId ∈ assessmentIds) ∧
        ∀ assessment ∈ assessmentIds, ∃ item ∈ items, item.assessmentId = assessment) then
    .error (.rule "evidence_incomplete")
  else
    items.forM fun item =>
      if item.testeeId ≠ testeeId then .error (.rule "evidence_subject_mismatch")
      else if item.reportId = "" ∨ item.sourceVersion = "" ∨ item.facts = [] ∨ (∃ fact ∈ item.facts, fact.ref = "") ∨
          ¬ (item.facts.map (·.ref)).Nodup then .error (.rule "evidence_identity_missing")
      else .ok ⟨⟩

/-- A positive decimal number of at most 64 bits, without leading zeros. -/
def externalId (value : String) : Bool :=
  match value.toList with
  | [] => false
  | first :: rest =>
      decide (rest.length < 20) && (first :: rest).all Char.isDigit && first != '0' &&
        decide ((first :: rest).foldl (fun number c => 10 * number + (c.toNat - 48)) 0 < 2 ^ 64)

def validateSessionInput (testeeId : String) (assessmentIds : List String) (goal : String) : Except Refusal Unit :=
  if externalId testeeId = true ∧ 1 ≤ assessmentIds.length ∧ assessmentIds.length ≤ 10 ∧ assessmentIds.Nodup ∧
      (∀ assessment ∈ assessmentIds, externalId assessment = true) ∧ strip goal ≠ "" ∧ goal.length ≤ 2000 then .ok ⟨⟩
  else .error (.rule "invalid_session_input")

structure AnswerCommand where
  expectedVersion : Int
  questionId : String
  answer : Option String
  skip : Bool
deriving DecidableEq

inductive ChangeCommand
  | answer (command : AnswerCommand)
  | cancel (expectedVersion : Int)
deriving DecidableEq

def ChangeCommand.action : ChangeCommand → String
  | .answer _ => "answer"
  | .cancel _ => "cancel"

def ChangeCommand.expectedVersion : ChangeCommand → Int
  | .answer command => command.expectedVersion
  | .cancel expectedVersion => expectedVersion

structure StartCommand where
  actor : Actor
  testeeId : String
  assessmentIds : List String
  goal : String
  requestId : String
  evidence : List EvidenceItem
deriving DecidableEq

/-- The organization of an operator, and the operator. -/
structure DraftScope where
  organizationId : Nat
  operatorUserId : Nat
deriving DecidableEq

/-- A retry that an operator has confirmed: it is one provider invocation. -/
structure ParticipantRetry where
  scope : DraftScope
  sessionId : String
  commandId : String
  expectedRunId : String
  expectedVersion : Nat
  reason : String
  acceptResultUnknownRisk : Bool
deriving DecidableEq

/-! Contents of requests, as the values whose fingerprint is stored. -/

inductive Content
  | null
  | bool (value : Bool)
  | int (value : Int)
  | string (value : String)
  | array (items : List Content)
  | object (fields : List (String × Content))

namespace Content

def text : Option String → Content
  | none => .null
  | some value => .string value

def ofActor (actor : Actor) : Content :=
  .object [("org_id", .string actor.orgId), ("subject_id", .string actor.subjectId)]

def ofFact (fact : Fact) : Content := .object [("ref", .string fact.ref), ("value", .string fact.value)]

def ofItem (item : EvidenceItem) : Content :=
  .object [("assessment_id", .string item.assessmentId), ("testee_id", .string item.testeeId),
    ("report_id", .string item.reportId), ("source_version", .string item.sourceVersion),
    ("facts", .array (item.facts.map ofFact))]

def ofChange : ChangeCommand → Content
  | .answer command => .object [("expected_version", .int command.expectedVersion),
      ("question_id", .string command.questionId), ("answer", text command.answer), ("skip", .bool command.skip)]
  | .cancel expectedVersion => .object [("expected_version", .int expectedVersion)]

def ofStart (command : StartCommand) : Content :=
  .array ([ofActor command.actor, .string command.testeeId, .array (command.assessmentIds.map .string),
    .string command.goal] ++ command.evidence.map ofItem)

def ofRetry (command : ParticipantRetry) : Content :=
  .object [("scope", .object [("organization_id", .int command.scope.organizationId),
      ("operator_user_id", .int command.scope.operatorUserId)]),
    ("session_id", .string command.sessionId), ("command_id", .string command.commandId),
    ("expected_run_id", .string command.expectedRunId), ("expected_version", .int command.expectedVersion),
    ("reason", .string command.reason), ("confirm", .bool true), ("expected_provider_invocations", .int 1),
    ("accept_result_unknown_risk", .bool command.acceptResultUnknownRisk)]

/-! The content determines the request. -/

theorem ofActor_injective : Function.Injective ofActor := by
  rintro ⟨orgId, subjectId⟩ ⟨other, subject⟩ h
  simp only [ofActor, object.injEq, List.cons.injEq, Prod.mk.injEq, string.injEq, true_and, and_true] at h
  rw [h.1, h.2]

theorem ofFact_injective : Function.Injective ofFact := by
  rintro ⟨ref, value⟩ ⟨other, text⟩ h
  simp only [ofFact, object.injEq, List.cons.injEq, Prod.mk.injEq, string.injEq, true_and, and_true] at h
  rw [h.1, h.2]

theorem ofItem_injective : Function.Injective ofItem := by
  rintro ⟨assessmentId, testeeId, reportId, sourceVersion, facts⟩ ⟨_, _, _, _, others⟩ h
  simp only [ofItem, object.injEq, List.cons.injEq, Prod.mk.injEq, string.injEq, array.injEq, true_and, and_true] at h
  obtain ⟨rfl, rfl, rfl, rfl, hFacts⟩ := h
  rw [List.map_injective_iff.mpr ofFact_injective hFacts]

theorem text_injective : Function.Injective text := by
  rintro (_ | first) (_ | second) h
  · rfl
  · cases h
  · cases h
  · exact congrArg some (string.inj h)

theorem ofChange_injective : Function.Injective ofChange := by
  rintro (⟨version, question, answer, skip⟩ | version) (⟨version', question', answer', skip'⟩ | version') h
  · simp only [ofChange, object.injEq, List.cons.injEq, Prod.mk.injEq, string.injEq, int.injEq, bool.injEq, true_and,
      and_true] at h
    obtain ⟨rfl, rfl, hAnswer, rfl⟩ := h
    rw [text_injective hAnswer]
  · simp [ofChange] at h
  · simp [ofChange] at h
  · simp only [ofChange, object.injEq, List.cons.injEq, Prod.mk.injEq, int.injEq, true_and, and_true] at h
    rw [h]

/-- Besides its identity, the content of a start determines it. -/
theorem ofStart_injective {first second : StartCommand} (h : ofStart first = ofStart second) :
    { first with requestId := second.requestId } = second := by
  obtain ⟨actor, testeeId, assessmentIds, goal, requestId, evidence⟩ := first
  obtain ⟨actor', testeeId', assessmentIds', goal', requestId', evidence'⟩ := second
  simp only [ofStart, array.injEq, List.cons_append, List.nil_append, List.cons.injEq, string.injEq] at h
  obtain ⟨hActor, rfl, hAssessments, rfl, hEvidence⟩ := h
  obtain rfl := ofActor_injective hActor
  obtain rfl := List.map_injective_iff.mpr (fun _ _ hText => string.inj hText) hAssessments
  obtain rfl := List.map_injective_iff.mpr ofItem_injective hEvidence
  rfl

theorem ofRetry_injective : Function.Injective ofRetry := by
  rintro ⟨⟨organization, operator⟩, session, command, run, version, reason, accept⟩
    ⟨⟨organization', operator'⟩, session', command', run', version', reason', accept'⟩ h
  simp only [ofRetry, object.injEq, List.cons.injEq, Prod.mk.injEq, string.injEq, int.injEq, bool.injEq, true_and,
    and_true, Int.natCast_inj] at h
  obtain ⟨⟨rfl, rfl⟩, rfl, rfl, rfl, rfl, rfl, rfl⟩ := h
  rfl

/-! A text for every content, a different one for each. -/

def mark (value : String) : List Char := value.toList.flatMap (fun c => ['-', c]) ++ ['.']

mutual

def code : Content → List Char
  | .null => ['n']
  | .bool false => ['f']
  | .bool true => ['t']
  | .int (.ofNat value) => 'i' :: List.replicate value '1' ++ ['.']
  | .int (.negSucc value) => 'j' :: List.replicate value '1' ++ ['.']
  | .string value => '"' :: mark value
  | .array items => '[' :: codeItems items
  | .object fields => '{' :: codeFields fields

def codeItems : List Content → List Char
  | [] => [']']
  | item :: rest => ',' :: code item ++ codeItems rest

def codeFields : List (String × Content) → List Char
  | [] => ['}']
  | (name, value) :: rest => ',' :: mark name ++ code value ++ codeFields rest

end

theorem mark_inj (first second : List Char) {rest rest' : List Char}
    (h : first.flatMap (fun c => ['-', c]) ++ '.' :: rest = second.flatMap (fun c => ['-', c]) ++ '.' :: rest') :
    first = second ∧ rest = rest' := by
  induction first generalizing second with
  | nil =>
      cases second with
      | nil => simpa using h
      | cons c second => simp at h
  | cons c first ih =>
      cases second with
      | nil => simp at h
      | cons d second =>
          simp only [List.flatMap_cons, List.cons_append, List.nil_append, List.cons.injEq, true_and] at h
          obtain ⟨rfl, hRest⟩ := ih second h.2
          exact ⟨by rw [h.1], hRest⟩

theorem replicate_inj {first second : Nat} {rest rest' : List Char}
    (h : List.replicate first '1' ++ '.' :: rest = List.replicate second '1' ++ '.' :: rest') :
    first = second ∧ rest = rest' := by
  induction first generalizing second with
  | zero =>
      cases second with
      | zero => simpa using h
      | succ second => simp [List.replicate_succ] at h
  | succ first ih =>
      cases second with
      | zero => simp [List.replicate_succ] at h
      | succ second =>
          simp only [List.replicate_succ, List.cons_append, List.cons.injEq, true_and] at h
          obtain ⟨rfl, hRest⟩ := ih h
          exact ⟨rfl, hRest⟩

mutual

/-- A code tells where it ends. -/
theorem code_inj (first second : Content) {rest rest' : List Char} (h : code first ++ rest = code second ++ rest') :
    first = second ∧ rest = rest' := by
  rcases first with _ | (_ | _) | (value | value) | value | items | fields <;>
    rcases second with _ | (_ | _) | (value' | value') | value' | items' | fields'
  all_goals
    simp only [code, mark, List.cons_append, List.nil_append, List.append_assoc, List.cons.injEq] at h
  all_goals try exact absurd h.1 (by decide)
  case null.null => exact ⟨rfl, h.2⟩
  case bool.false.bool.false => exact ⟨rfl, h.2⟩
  case bool.true.bool.true => exact ⟨rfl, h.2⟩
  case int.ofNat.int.ofNat =>
      obtain ⟨rfl, hRest⟩ := replicate_inj h.2
      exact ⟨rfl, hRest⟩
  case int.negSucc.int.negSucc =>
      obtain ⟨rfl, hRest⟩ := replicate_inj h.2
      exact ⟨rfl, hRest⟩
  case string.string =>
      obtain ⟨hValue, hRest⟩ := mark_inj _ _ h.2
      exact ⟨congrArg string (String.toList_inj.mp hValue), hRest⟩
  case array.array =>
      obtain ⟨rfl, hRest⟩ := codeItems_inj items items' h.2
      exact ⟨rfl, hRest⟩
  case object.object =>
      obtain ⟨rfl, hRest⟩ := codeFields_inj fields fields' h.2
      exact ⟨rfl, hRest⟩

theorem codeItems_inj (first second : List Content) {rest rest' : List Char}
    (h : codeItems first ++ rest = codeItems second ++ rest') : first = second ∧ rest = rest' := by
  rcases first with _ | ⟨item, items⟩ <;> rcases second with _ | ⟨item', items'⟩
  all_goals simp only [codeItems, List.cons_append, List.nil_append, List.append_assoc, List.cons.injEq] at h
  all_goals try exact absurd h.1 (by decide)
  · exact ⟨rfl, h.2⟩
  · obtain ⟨rfl, hItems⟩ := code_inj item item' h.2
    obtain ⟨rfl, hRest⟩ := codeItems_inj items items' hItems
    exact ⟨rfl, hRest⟩

theorem codeFields_inj (first second : List (String × Content)) {rest rest' : List Char}
    (h : codeFields first ++ rest = codeFields second ++ rest') : first = second ∧ rest = rest' := by
  rcases first with _ | ⟨⟨name, value⟩, fields⟩ <;> rcases second with _ | ⟨⟨name', value'⟩, fields'⟩
  all_goals simp only [codeFields, mark, List.cons_append, List.nil_append, List.append_assoc, List.cons.injEq] at h
  all_goals try exact absurd h.1 (by decide)
  · exact ⟨rfl, h.2⟩
  · obtain ⟨hName, hValue⟩ := mark_inj _ _ h.2
    obtain ⟨rfl, hFields⟩ := code_inj value value' hValue
    obtain ⟨rfl, hRest⟩ := codeFields_inj fields fields' hFields
    exact ⟨by rw [String.toList_inj.mp hName], hRest⟩

end

/-- The text of a content. -/
def canonical (content : Content) : String := String.ofList (code content)

theorem canonical_injective : Function.Injective canonical := by
  intro first second h
  have hCode : code first ++ [] = code second ++ [] := by rw [String.ofList_injective h]
  exact (code_inj first second hCode).1

end Content

end Interpretation

end QsAi
