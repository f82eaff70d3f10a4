import QsAi.Workflow.StateFacts

/-! Facts of an interpretation state. The version usually moves by one; facts
that move it by two are frozen under a magic of their own. -/
namespace QsAi

open PyJson TextEncoding BigEndian Guarded

@[ext]
structure InterpretationStateIntent where
  organizationId : String
  sessionId : String
  requestId : String
  operationKey : String
  expectedVersion : Nat
  inputHash : Bytes
  organization : validNumber organizationId = true
  session : validMessageId sessionId = true
  request : validMessageId requestId = true
  operation : validId operationKey = true
  version : 0 < expectedVersion ∧ expectedVersion < maxVersion
  hash : inputHash.length = 32

instance interpretationStateIntentDecidable : DecidableEq InterpretationStateIntent := fun _ _ =>
  decidable_of_iff' _ InterpretationStateIntent.ext_iff

def InterpretationStateIntent.new (organizationId sessionId requestId operationKey : String) (expectedVersion : Nat)
    (inputHash : Bytes) : Option InterpretationStateIntent :=
  if hOrganization : validNumber organizationId = true then
    if hSession : validMessageId sessionId = true then
      if hRequest : validMessageId requestId = true then
        if hOperation : validId operationKey = true then
          if hVersion : 0 < expectedVersion ∧ expectedVersion < maxVersion then
            if hHash : inputHash.length = 32 then
              some ⟨organizationId, sessionId, requestId, operationKey, expectedVersion, inputHash, hOrganization, hSession,
                hRequest, hOperation, hVersion, hHash⟩
            else none
          else none
        else none
      else none
    else none
  else none

theorem InterpretationStateIntent.new_self (intent : InterpretationStateIntent) :
    InterpretationStateIntent.new intent.organizationId intent.sessionId intent.requestId intent.operationKey
      intent.expectedVersion intent.inputHash = some intent := by
  obtain ⟨organizationId, sessionId, requestId, operationKey, expectedVersion, inputHash, hOrganization, hSession, hRequest,
    hOperation, hVersion, hHash⟩ := intent
  simp [InterpretationStateIntent.new, hOrganization, hSession, hRequest, hOperation, hVersion, hHash]

/-- The arguments from which facts are built, the time in any zone. -/
structure InterpretationStateArguments where
  intent : InterpretationStateIntent
  time : DateTime
  businessContext : Bytes
  versionDelta : Nat
deriving DecidableEq

def InterpretationStateArguments.Checked (arguments : InterpretationStateArguments) : Prop :=
  arguments.businessContext.length ≤ 8192 ∧ (arguments.versionDelta = 1 ∨ arguments.versionDelta = 2) ∧
    arguments.intent.expectedVersion + arguments.versionDelta ≤ maxVersion

instance InterpretationStateArguments.checkedDecidable (arguments : InterpretationStateArguments) :
    Decidable arguments.Checked :=
  inferInstanceAs (Decidable (_ ∧ _))

/-- Facts keep their time in UTC. -/
structure InterpretationStateFacts where
  arguments : InterpretationStateArguments
  checked : arguments.Checked
  utc : arguments.time.utcoffset = 0

/-- The constructor: the checks, then the conversion of the time. -/
def InterpretationStateArguments.facts (arguments : InterpretationStateArguments) :
    Except FactsRaise InterpretationStateFacts :=
  if hChecked : arguments.Checked then
    match hTime : arguments.time.astimezoneUtc with
    | some time => .ok ⟨{ arguments with time }, hChecked, DateTime.astimezoneUtc_zone hTime⟩
    | none => .error .overflowError
  else refused

/-- The two encodings. -/
inductive InterpretationLayout
  | plain
  | delta
deriving DecidableEq

def InterpretationLayout.magic : InterpretationLayout → Bytes
  | .plain => asciiBytes "qs-ai-interpretation-state/v1" ++ [0]
  | .delta => asciiBytes "qs-ai-interpretation-state/v2" ++ [0]

def InterpretationLayout.extended : InterpretationLayout → Bool
  | .plain => false
  | .delta => true

/-- The members of an encoding, in their order. -/
def InterpretationLayout.names (layout : InterpretationLayout) : List String :=
  ["at", "business_context", "expected_version", "input_hash", "operation_key", "organization_id", "request_id",
    "session_id"] ++ (if layout.extended then ["version_delta"] else [])

theorem InterpretationLayout.names_plain (layout : InterpretationLayout) :
    layout.names.Nodup ∧ ∀ name ∈ layout.names, PyJson.Plain (text name) ∧ name.toList.length ≤ 20 := by
  cases layout <;> decide

theorem InterpretationLayout.magic_mem (layout : InterpretationLayout) : layout.magic ∈ stateMagics := by
  cases layout <;> decide

theorem InterpretationLayout.magic_injective :
    ∀ layout other : InterpretationLayout, layout.magic = other.magic → layout = other := by
  intro layout other
  cases layout <;> cases other <;> decide

namespace InterpretationStateFacts

def layout (facts : InterpretationStateFacts) : InterpretationLayout :=
  if facts.arguments.versionDelta ≠ 1 then .delta else .plain

/-- The members that are written, sorted by name. -/
def fields (facts : InterpretationStateFacts) : List (String × Scalar) :=
  let { intent, time, businessContext, versionDelta } := facts.arguments
  [("at", .string (text time.isoformatMicroseconds)), ("business_context", .string (base64Text businessContext)),
    ("expected_version", .nat intent.expectedVersion), ("input_hash", .string (hexText intent.inputHash)),
    ("operation_key", .string (text intent.operationKey)), ("organization_id", .string (text intent.organizationId)),
    ("request_id", .string (text intent.requestId)), ("session_id", .string (text intent.sessionId))] ++
    (if versionDelta ≠ 1 then [("version_delta", .nat versionDelta)] else [])

def encode (facts : InterpretationStateFacts) : Except FactsRaise Bytes :=
  let raw := facts.layout.magic ++ canonicalBytes facts.fields
  if maxContext < raw.length then refused else .ok raw

end InterpretationStateFacts

/-- The encoding that bytes announce, if any. -/
def InterpretationLayout.announced (raw : Bytes) : Option InterpretationLayout :=
  if InterpretationLayout.plain.magic.isPrefixOf raw then some .plain
  else if InterpretationLayout.delta.magic.isPrefixOf raw then some .delta
  else none

/-- The arguments that the members of an object spell. -/
def InterpretationStateArguments.read (fromisoformat : IsoReader) (layout : InterpretationLayout)
    (fields : List (Text × Value)) : Option InterpretationStateArguments := do
  let organizationId ← stringMember fields "organization_id"
  let sessionId ← stringMember fields "session_id"
  let requestId ← stringMember fields "request_id"
  let operationKey ← stringMember fields "operation_key"
  let expectedVersion ← natMember fields "expected_version"
  let inputHash ← (textMember fields "input_hash").bind fromhex
  let intent ←
    InterpretationStateIntent.new organizationId sessionId requestId operationKey expectedVersion inputHash
  let time ← (textMember fields "at").bind fun value => (fromisoformat value).join
  let businessContext ← (textMember fields "business_context").bind b64decode
  let versionDelta ← if layout.extended then natMember fields "version_delta" else some 1
  pure ⟨intent, time, businessContext, versionDelta⟩

/-- The arguments behind the magic of bounded bytes. -/
def InterpretationStateArguments.parse (limit : Nat) (fromisoformat : IsoReader) (raw : Bytes) :
    Except FactsRaise InterpretationStateArguments := do
  require (raw.length ≤ maxContext) .valueError
  let layout ← orRefuse (InterpretationLayout.announced raw)
  let fields ← readObject limit layout.names (raw.drop layout.magic.length)
  orRefuse (InterpretationStateArguments.read fromisoformat layout fields)

/-- Reading ends with writing again. -/
def InterpretationStateFacts.decode (limit : Nat) (fromisoformat : IsoReader) (raw : Bytes) :
    Except FactsRaise InterpretationStateFacts :=
  readBack (InterpretationStateArguments.parse limit fromisoformat raw) InterpretationStateArguments.facts
    InterpretationStateFacts.encode raw

namespace InterpretationStateFacts

theorem fields_names (facts : InterpretationStateFacts) : facts.fields.map (·.1) = facts.layout.names := by
  obtain ⟨⟨intent, time, businessContext, versionDelta⟩, hChecked, hUtc⟩ := facts
  by_cases hOne : versionDelta = 1
  · simp [fields, layout, InterpretationLayout.names, InterpretationLayout.extended, hOne]
  · simp [fields, layout, InterpretationLayout.names, InterpretationLayout.extended, hOne]

theorem delta_version {facts : InterpretationStateFacts} : facts.arguments.versionDelta < maxVersion := by
  have hDelta := facts.checked.2.1
  have hMany : 2 < maxVersion := by decide
  omega

/-- No member needs an escape. -/
theorem fields_plain (facts : InterpretationStateFacts) : ∀ field ∈ facts.fields, field.2.Plain := by
  have hDelta := facts.delta_version
  obtain ⟨⟨intent, time, businessContext, versionDelta⟩, hChecked, hUtc⟩ := facts
  intro field hField
  simp only [fields, List.mem_append, List.mem_cons, List.not_mem_nil, or_false] at hField
  rcases hField with (rfl | rfl | rfl | rfl | rfl | rfl | rfl | rfl) | hField
  · exact iso_plain hUtc
  · exact base64Text_plain businessContext
  · exact version_plain intent.version.2
  · exact hexText_plain intent.inputHash
  · exact validId_plain intent.operation
  · exact validNumber_plain intent.organization
  · exact validMessageId_plain intent.request
  · exact validMessageId_plain intent.session
  · split at hField
    · rw [List.mem_singleton.mp hField]
      exact version_plain hDelta
    · cases hField

theorem writable (facts : InterpretationStateFacts) : Writable facts.fields facts.layout.names where
  nonempty := by simp [fields]
  named := facts.fields_names
  distinct := facts.layout.names_plain.1
  plain := facts.layout.names_plain.2
  values := facts.fields_plain

theorem room_fields (facts : InterpretationStateFacts) : room facts.fields ≤ 12000 := by
  have hNumber := length_printVersion facts.delta_version
  obtain ⟨⟨intent, time, businessContext, versionDelta⟩, hChecked, hUtc⟩ := facts
  have hTime : time.isoformatMicroseconds.toList.length = 32 := (DateTime.isoformatMicroseconds_utc hUtc).1
  have hBase64 := length_base64Text businessContext
  have hHex := length_hexText intent.inputHash
  have hHash := intent.hash
  have hExpected := length_printVersion intent.version.2
  have hOperation := length_of_validId intent.operation
  have hOrganization := (codes_of_validNumber intent.organization).1
  have hRequest := (codes_of_validMessageId intent.request).1
  have hSession := (codes_of_validMessageId intent.session).1
  have hContext : businessContext.length ≤ 8192 := hChecked.1
  have hWritten := room_optional (decide (versionDelta ≠ 1)) [("version_delta", .nat versionDelta)]
  simp only [decide_eq_true_eq, room_cons, room_nil, length_printNumber] at hWritten hNumber
  simp only [fields, room_append, room_cons, room_nil, length_printString, length_printNumber, length_text]
  omega

/-- Every encoding fits. -/
theorem encode_total (facts : InterpretationStateFacts) : ∃ raw, facts.encode = .ok raw ∧ raw.length ≤ maxContext := by
  have hLength : (facts.layout.magic ++ canonicalBytes facts.fields).length ≤ maxContext := by
    have hFields := length_canonicalBytes facts.writable
    have hRoom := facts.room_fields
    have hMagic : facts.layout.magic.length = 30 := by
      cases facts.layout <;> decide
    rw [List.length_append, hMagic, maxContext]
    omega
  refine ⟨_, ?_, hLength⟩
  rw [encode, if_neg (Nat.not_lt.mpr hLength)]

/-- What is written, and how it starts. -/
theorem encode_ok {facts : InterpretationStateFacts} {raw : Bytes} (h : facts.encode = .ok raw) :
    raw = facts.layout.magic ++ canonicalBytes facts.fields ∧ raw.length ≤ maxContext := by
  simp only [encode] at h
  split at h
  · cases h
  · obtain rfl := Except.ok.inj h
    exact ⟨rfl, Nat.not_lt.mp ‹_›⟩

/-- Facts are built from their own arguments. -/
theorem facts_arguments (facts : InterpretationStateFacts) : facts.arguments.facts = .ok facts := by
  have hSelf := DateTime.astimezoneUtc_utc facts.utc
  unfold InterpretationStateArguments.facts
  rw [dif_pos facts.checked]
  split
  · rename_i time hTime
    obtain rfl := Option.some.inj (hSelf.symm.trans hTime)
    rfl
  · rename_i hTime
    rw [hTime] at hSelf
    cases hSelf

end InterpretationStateFacts

/-- Bytes announce the encoding whose magic they start with. -/
theorem InterpretationLayout.announced_of_prefix {layout : InterpretationLayout} {raw : Bytes} (h : layout.magic <+: raw) :
    InterpretationLayout.announced raw = some layout := by
  have hOnly : ∀ other : InterpretationLayout, other.magic <+: raw → other = layout := fun other hOther =>
    magic_injective other layout (stateMagics_unique other.magic_mem layout.magic_mem hOther h)
  unfold InterpretationLayout.announced
  split
  · rw [hOnly .plain (List.isPrefixOf_iff_prefix.mp ‹_›)]
  · split
    · rw [hOnly .delta (List.isPrefixOf_iff_prefix.mp ‹_›)]
    · rename_i hPlain hDelta
      cases layout with
      | plain => exact absurd (List.isPrefixOf_iff_prefix.mpr h) hPlain
      | delta => exact absurd (List.isPrefixOf_iff_prefix.mpr h) hDelta

/-- The written members spell the facts. -/
theorem InterpretationStateArguments.read_fields {fromisoformat : IsoReader} (hIso : fromisoformat.Undoes)
    (facts : InterpretationStateFacts) :
    InterpretationStateArguments.read fromisoformat facts.layout (readMembers facts.fields) = some facts.arguments := by
  obtain ⟨⟨intent, time, businessContext, versionDelta⟩, hChecked, hUtc⟩ := facts
  have hTime := hIso time hUtc
  have hSelf := intent.new_self
  by_cases hOne : versionDelta = 1
  · simp [InterpretationStateArguments.read, InterpretationStateFacts.fields, InterpretationStateFacts.layout,
      InterpretationLayout.extended, stringMember, textMember, natMember, Scalar.value, hTime, hSelf, fromhex_hexText,
      b64decode_base64Text, hOne]
  · simp [InterpretationStateArguments.read, InterpretationStateFacts.fields, InterpretationStateFacts.layout,
      InterpretationLayout.extended, stringMember, textMember, natMember, Scalar.value, hTime, hSelf, fromhex_hexText,
      b64decode_base64Text, hOne]

theorem InterpretationStateArguments.parse_expected (limit : Nat) (fromisoformat : IsoReader) (raw : Bytes) :
    InterpretationStateArguments.parse limit fromisoformat raw ≠ .error .overflowError :=
  bind_expected (require_expected _) fun _ => bind_expected (orRefuse_expected _) fun _ =>
    bind_expected (readObject_expected _ _ _) fun _ => orRefuse_expected _

/-- The conversion of a time is what can fail unexpectedly. -/
theorem InterpretationStateArguments.facts_overflow_iff (arguments : InterpretationStateArguments) :
    arguments.facts = .error .overflowError ↔ arguments.Checked ∧ arguments.time.OutsideCalendar := by
  rw [← DateTime.astimezoneUtc_none_iff]
  unfold InterpretationStateArguments.facts
  by_cases hChecked : arguments.Checked
  · rw [dif_pos hChecked]
    split
    · rename_i time hTime
      simp [hTime]
    · rename_i hTime
      simp [hTime, hChecked]
  · rw [dif_neg hChecked]
    simp [refused, hChecked]

namespace InterpretationStateFacts

/-- Facts are read from their bytes. -/
theorem decode_encode (limit : Nat) {fromisoformat : IsoReader} (hIso : fromisoformat.Undoes)
    {facts : InterpretationStateFacts} {raw : Bytes} (h : facts.encode = .ok raw) :
    decode limit fromisoformat raw = .ok facts := by
  obtain ⟨hRaw, hLength⟩ := encode_ok h
  have hPrefix : facts.layout.magic <+: raw := ⟨_, hRaw.symm⟩
  refine readBack_self ?_ facts.facts_arguments h
  unfold InterpretationStateArguments.parse
  rw [require_bind_pos hLength, InterpretationLayout.announced_of_prefix hPrefix, orRefuse, demand, ok_bind, hRaw,
    List.drop_left, readObject_canonical limit facts.writable, ok_bind, InterpretationStateArguments.read_fields hIso facts]
  rfl

/-- The magic of accepted bytes is the one of their facts. -/
theorem magic_of_decode {limit : Nat} {fromisoformat : IsoReader} {facts : InterpretationStateFacts} {raw : Bytes}
    (h : decode limit fromisoformat raw = .ok facts) {magic : Bytes} (hMagic : magic ∈ stateMagics) :
    magic <+: raw ↔ magic = facts.layout.magic := by
  have hRaw := (encode_ok (readBack_encode h)).1
  have hPrefix : facts.layout.magic <+: raw := ⟨_, hRaw.symm⟩
  constructor
  · intro hStarts
    exact stateMagics_unique hMagic facts.layout.magic_mem hStarts hPrefix
  · rintro rfl
    exact hPrefix

/-- Reading fails otherwise than expected exactly on checked arguments whose
time is outside the calendar. -/
theorem decode_expected_iff (limit : Nat) (fromisoformat : IsoReader) (raw : Bytes) :
    (decode limit fromisoformat raw = .error .valueError ∨
      ∃ facts, decode limit fromisoformat raw = .ok facts ∧ facts.encode = .ok raw) ↔
      ∀ arguments, InterpretationStateArguments.parse limit fromisoformat raw = .ok arguments → arguments.Checked →
        ¬ arguments.time.OutsideCalendar := by
  have hExpected := InterpretationStateArguments.parse_expected limit fromisoformat raw
  refine (readBack_expected_iff hExpected).trans ?_
  simp only [ne_eq, InterpretationStateArguments.facts_overflow_iff, not_and]

end InterpretationStateFacts

end QsAi
