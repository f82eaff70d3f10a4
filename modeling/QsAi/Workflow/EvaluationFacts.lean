import QsAi.Workflow.StateFacts

/-! Facts of an evaluation state. They are frozen under three magics: the first
one, one with a business context, and one with a source version. -/
namespace QsAi

open PyJson TextEncoding BigEndian Guarded

/-- A bounded intent, named by the operation of its owner. -/
structure EvaluationStateIntent where
  organizationId : String
  runId : String
  operationKey : String
  expectedVersion : Nat
  sourceDigest : Bytes
  organization : validNumber organizationId = true
  run : validMessageId runId = true
  operation : validId operationKey = true
  version : expectedVersion < maxVersion
  digest : sourceDigest.length = 32
deriving DecidableEq

/-- The arguments from which facts are built, the time in any zone. -/
structure EvaluationStateArguments where
  intent : EvaluationStateIntent
  time : DateTime
  previousSequence : Nat
  previousVersion : Nat
  businessContext : Bytes
  sourceVersion : Option Nat
deriving DecidableEq

/-- The version after which the state is written. -/
def EvaluationStateArguments.baseVersion (arguments : EvaluationStateArguments) : Nat :=
  arguments.sourceVersion.getD arguments.intent.expectedVersion

def EvaluationStateArguments.Checked (arguments : EvaluationStateArguments) : Prop :=
  (arguments.previousSequence < maxVersion ∧ arguments.previousVersion < maxVersion) ∧
    (arguments.previousSequence = 0 ↔ arguments.previousVersion = 0) ∧
    (∀ version ∈ arguments.sourceVersion, arguments.intent.expectedVersion ≤ version ∧ version < maxVersion) ∧
    arguments.previousVersion ≤ arguments.baseVersion ∧ arguments.businessContext.length ≤ 8192

instance EvaluationStateArguments.checkedDecidable (arguments : EvaluationStateArguments) : Decidable arguments.Checked :=
  inferInstanceAs (Decidable (_ ∧ _))

/-- Facts keep their time in UTC. -/
structure EvaluationStateFacts where
  arguments : EvaluationStateArguments
  checked : arguments.Checked
  utc : arguments.time.utcoffset = 0

/-- The constructor: the checks, then the conversion of the time. -/
def EvaluationStateArguments.facts (arguments : EvaluationStateArguments) : Except FactsRaise EvaluationStateFacts :=
  if hChecked : arguments.Checked then
    match hTime : arguments.time.astimezoneUtc with
    | some time => .ok ⟨{ arguments with time }, hChecked, DateTime.astimezoneUtc_zone hTime⟩
    | none => .error .overflowError
  else refused

/-- The three encodings. -/
inductive EvaluationLayout
  | plain
  | context
  | source
deriving DecidableEq

def EvaluationLayout.magic : EvaluationLayout → Bytes
  | .plain => asciiBytes "qs-ai-evaluation-state/v1" ++ [0]
  | .context => asciiBytes "qs-ai-evaluation-state/v2" ++ [0]
  | .source => asciiBytes "qs-ai-evaluation-state/v3" ++ [0]

def EvaluationLayout.extended : EvaluationLayout → Bool
  | .plain => false
  | .context | .source => true

def EvaluationLayout.sourceBound : EvaluationLayout → Bool
  | .plain | .context => false
  | .source => true

/-- The members of an encoding, in their order. -/
def EvaluationLayout.names (layout : EvaluationLayout) : List String :=
  ["at"] ++ (if layout.extended then ["business_context"] else []) ++
    ["expected_version", "operation_key", "organization_id", "previous_sequence", "previous_version", "run_id",
      "source_digest"] ++ (if layout.sourceBound then ["source_version"] else [])

namespace EvaluationStateFacts

def layout (facts : EvaluationStateFacts) : EvaluationLayout :=
  if facts.arguments.sourceVersion.isSome then .source
  else if !facts.arguments.businessContext.isEmpty then .context
  else .plain

/-- The members that are written, sorted by name. -/
def fields (facts : EvaluationStateFacts) : List (String × Scalar) :=
  let { intent, time, previousSequence, previousVersion, businessContext, sourceVersion } := facts.arguments
  [("at", .string (text time.isoformatMicroseconds))] ++
    (if !businessContext.isEmpty || sourceVersion.isSome then [("business_context", .string (base64Text businessContext))]
      else []) ++
    [("expected_version", .nat intent.expectedVersion), ("operation_key", .string (text intent.operationKey)),
      ("organization_id", .string (text intent.organizationId)), ("previous_sequence", .nat previousSequence),
      ("previous_version", .nat previousVersion), ("run_id", .string (text intent.runId)),
      ("source_digest", .string (hexText intent.sourceDigest))] ++
    (match sourceVersion with
      | some version => [("source_version", .nat version)]
      | none => [])

def encode (facts : EvaluationStateFacts) : Except FactsRaise Bytes :=
  let raw := facts.layout.magic ++ canonicalBytes facts.fields
  if maxContext < raw.length then refused else .ok raw

end EvaluationStateFacts

/-- The encoding that bytes announce; without any of the later magics it is the
first one. -/
def EvaluationLayout.announced (raw : Bytes) : EvaluationLayout :=
  if EvaluationLayout.source.magic.isPrefixOf raw then .source
  else if EvaluationLayout.context.magic.isPrefixOf raw then .context
  else .plain

/-- An integer that is not negative, or nothing. -/
def versionMember (fields : List (Text × Value)) (name : String) : Option (Option Nat) :=
  match member fields name with
  | some .null => some none
  | _ => (natMember fields name).map some

def EvaluationStateIntent.new (organizationId runId operationKey : String) (expectedVersion : Nat) (sourceDigest : Bytes) :
    Option EvaluationStateIntent :=
  if hOrganization : validNumber organizationId = true then
    if hRun : validMessageId runId = true then
      if hOperation : validId operationKey = true then
        if hVersion : expectedVersion < maxVersion then
          if hDigest : sourceDigest.length = 32 then
            some ⟨organizationId, runId, operationKey, expectedVersion, sourceDigest, hOrganization, hRun, hOperation,
              hVersion, hDigest⟩
          else none
        else none
      else none
    else none
  else none

/-- The arguments that the members of an object spell. -/
def EvaluationStateArguments.read (fromisoformat : IsoReader) (layout : EvaluationLayout) (fields : List (Text × Value)) :
    Option EvaluationStateArguments := do
  let organizationId ← stringMember fields "organization_id"
  let runId ← stringMember fields "run_id"
  let operationKey ← stringMember fields "operation_key"
  let expectedVersion ← natMember fields "expected_version"
  let sourceDigest ← (textMember fields "source_digest").bind fromhex
  let intent ← EvaluationStateIntent.new organizationId runId operationKey expectedVersion sourceDigest
  let time ← (textMember fields "at").bind fun value => (fromisoformat value).join
  let previousSequence ← natMember fields "previous_sequence"
  let previousVersion ← natMember fields "previous_version"
  let businessContext ←
    if layout.extended then (textMember fields "business_context").bind b64decode else some []
  let sourceVersion ← if layout.sourceBound then versionMember fields "source_version" else some none
  pure ⟨intent, time, previousSequence, previousVersion, businessContext, sourceVersion⟩

/-- The arguments behind the magic of bounded bytes. -/
def EvaluationStateArguments.parse (limit : Nat) (fromisoformat : IsoReader) (raw : Bytes) :
    Except FactsRaise EvaluationStateArguments := do
  let layout := EvaluationLayout.announced raw
  require (raw.length ≤ maxContext ∧ layout.magic.isPrefixOf raw = true) .valueError
  let fields ← readObject limit layout.names (raw.drop layout.magic.length)
  orRefuse (EvaluationStateArguments.read fromisoformat layout fields)

/-- Reading ends with writing again. -/
def EvaluationStateFacts.decode (limit : Nat) (fromisoformat : IsoReader) (raw : Bytes) :
    Except FactsRaise EvaluationStateFacts :=
  readBack (EvaluationStateArguments.parse limit fromisoformat raw) EvaluationStateArguments.facts EvaluationStateFacts.encode
    raw

theorem EvaluationLayout.names_plain (layout : EvaluationLayout) :
    layout.names.Nodup ∧ ∀ name ∈ layout.names, PyJson.Plain (text name) ∧ name.toList.length ≤ 20 := by
  cases layout <;> decide

namespace EvaluationStateFacts

theorem fields_names (facts : EvaluationStateFacts) : facts.fields.map (·.1) = facts.layout.names := by
  obtain ⟨⟨intent, time, previousSequence, previousVersion, businessContext, sourceVersion⟩, hChecked, hUtc⟩ := facts
  cases sourceVersion with
  | some version => simp [fields, layout, EvaluationLayout.names, EvaluationLayout.extended, EvaluationLayout.sourceBound]
  | none =>
      cases businessContext with
      | nil => simp [fields, layout, EvaluationLayout.names, EvaluationLayout.extended, EvaluationLayout.sourceBound]
      | cons byte rest =>
          simp [fields, layout, EvaluationLayout.names, EvaluationLayout.extended, EvaluationLayout.sourceBound]

/-- No member needs an escape. -/
theorem fields_plain (facts : EvaluationStateFacts) : ∀ field ∈ facts.fields, field.2.Plain := by
  obtain ⟨⟨intent, time, previousSequence, previousVersion, businessContext, sourceVersion⟩, hChecked, hUtc⟩ := facts
  obtain ⟨⟨hSequence, hVersion⟩, hBoth, hSource, hOrder, hContext⟩ := hChecked
  intro field hField
  simp only [fields, List.mem_append, List.mem_cons, List.not_mem_nil, or_false] at hField
  rcases hField with ((rfl | hField) | rfl | rfl | rfl | rfl | rfl | rfl | rfl) | hField
  · exact iso_plain hUtc
  · split at hField
    · rw [List.mem_singleton.mp hField]
      exact base64Text_plain businessContext
    · cases hField
  · exact version_plain intent.version
  · exact validId_plain intent.operation
  · exact validNumber_plain intent.organization
  · exact version_plain hSequence
  · exact version_plain hVersion
  · exact validMessageId_plain intent.run
  · exact hexText_plain intent.sourceDigest
  · split at hField
    · rw [List.mem_singleton.mp hField]
      exact version_plain (hSource _ rfl).2
    · cases hField

theorem writable (facts : EvaluationStateFacts) : Writable facts.fields facts.layout.names where
  nonempty := by simp [fields]
  named := facts.fields_names
  distinct := facts.layout.names_plain.1
  plain := facts.layout.names_plain.2
  values := facts.fields_plain

end EvaluationStateFacts

theorem EvaluationStateIntent.new_self (intent : EvaluationStateIntent) :
    EvaluationStateIntent.new intent.organizationId intent.runId intent.operationKey intent.expectedVersion
      intent.sourceDigest = some intent := by
  obtain ⟨organizationId, runId, operationKey, expectedVersion, sourceDigest, hOrganization, hRun, hOperation, hVersion,
    hDigest⟩ := intent
  simp [EvaluationStateIntent.new, hOrganization, hRun, hOperation, hVersion, hDigest]

/-- The written members spell the facts. -/
theorem EvaluationStateArguments.read_fields {fromisoformat : IsoReader} (hIso : fromisoformat.Undoes)
    (facts : EvaluationStateFacts) :
    EvaluationStateArguments.read fromisoformat facts.layout (readMembers facts.fields) = some facts.arguments := by
  obtain ⟨⟨intent, time, previousSequence, previousVersion, businessContext, sourceVersion⟩, hChecked, hUtc⟩ := facts
  have hTime := hIso time hUtc
  have hSelf := intent.new_self
  cases sourceVersion with
  | some version =>
      simp [EvaluationStateArguments.read, EvaluationStateFacts.fields, EvaluationStateFacts.layout, EvaluationLayout.extended,
        EvaluationLayout.sourceBound, stringMember, textMember, natMember, versionMember, Scalar.value, hTime, hSelf,
        fromhex_hexText, b64decode_base64Text]
  | none =>
      cases businessContext with
      | nil =>
        simp [EvaluationStateArguments.read, EvaluationStateFacts.fields, EvaluationStateFacts.layout, EvaluationLayout.extended,
          EvaluationLayout.sourceBound, stringMember, textMember, natMember, Scalar.value, hTime, hSelf, fromhex_hexText]
      | cons byte rest =>
        simp [EvaluationStateArguments.read, EvaluationStateFacts.fields, EvaluationStateFacts.layout, EvaluationLayout.extended,
          EvaluationLayout.sourceBound, stringMember, textMember, natMember, Scalar.value, hTime, hSelf,
          fromhex_hexText, b64decode_base64Text]

/-- The conversion of a time is what can fail unexpectedly. -/
theorem EvaluationStateArguments.facts_overflow_iff (arguments : EvaluationStateArguments) :
    arguments.facts = .error .overflowError ↔ arguments.Checked ∧ arguments.time.OutsideCalendar := by
  rw [← DateTime.astimezoneUtc_none_iff]
  unfold EvaluationStateArguments.facts
  by_cases hChecked : arguments.Checked
  · rw [dif_pos hChecked]
    split
    · rename_i time hTime
      simp [hTime]
    · rename_i hTime
      simp [hTime, hChecked]
  · rw [dif_neg hChecked]
    simp [refused, hChecked]

/-- Facts are built from their own arguments. -/
theorem EvaluationStateFacts.facts_arguments (facts : EvaluationStateFacts) : facts.arguments.facts = .ok facts := by
  have hSelf := DateTime.astimezoneUtc_utc facts.utc
  unfold EvaluationStateArguments.facts
  rw [dif_pos facts.checked]
  split
  · rename_i time hTime
    obtain rfl := Option.some.inj (hSelf.symm.trans hTime)
    rfl
  · rename_i hTime
    rw [hTime] at hSelf
    cases hSelf

theorem EvaluationLayout.magic_mem (layout : EvaluationLayout) : layout.magic ∈ stateMagics := by
  cases layout <;> decide

theorem EvaluationLayout.magic_injective : ∀ layout other : EvaluationLayout, layout.magic = other.magic → layout = other := by
  intro layout other
  cases layout <;> cases other <;> decide

/-- Bytes announce the encoding whose magic they start with. -/
theorem EvaluationLayout.announced_of_prefix {layout : EvaluationLayout} {raw : Bytes} (h : layout.magic <+: raw) :
    EvaluationLayout.announced raw = layout := by
  have hOnly : ∀ other : EvaluationLayout, other.magic <+: raw → other = layout := fun other hOther =>
    magic_injective other layout (stateMagics_unique other.magic_mem layout.magic_mem hOther h)
  unfold EvaluationLayout.announced
  split
  · exact hOnly .source (List.isPrefixOf_iff_prefix.mp ‹_›)
  · split
    · exact hOnly .context (List.isPrefixOf_iff_prefix.mp ‹_›)
    · rename_i hSource hContext
      cases layout with
      | plain => rfl
      | context => exact absurd (List.isPrefixOf_iff_prefix.mpr h) hContext
      | source => exact absurd (List.isPrefixOf_iff_prefix.mpr h) hSource

namespace EvaluationStateFacts

theorem room_fields (facts : EvaluationStateFacts) : room facts.fields ≤ 12000 := by
  obtain ⟨⟨intent, time, previousSequence, previousVersion, businessContext, sourceVersion⟩, hChecked, hUtc⟩ := facts
  obtain ⟨⟨hSequence, hVersion⟩, -, hSource, -, hContext⟩ := hChecked
  have hTime : time.isoformatMicroseconds.toList.length = 32 := (DateTime.isoformatMicroseconds_utc hUtc).1
  have hBase64 := length_base64Text businessContext
  have hHex := length_hexText intent.sourceDigest
  have hDigest := intent.digest
  have hExpected := length_printVersion intent.version
  have hOperation := length_of_validId intent.operation
  have hOrganization := (codes_of_validNumber intent.organization).1
  have hRun := (codes_of_validMessageId intent.run).1
  have hPrevious : (printNat previousSequence).length ≤ 19 := length_printVersion hSequence
  have hLast : (printNat previousVersion).length ≤ 19 := length_printVersion hVersion
  have hBound : businessContext.length ≤ 8192 := hContext
  have hWritten := room_optional (!businessContext.isEmpty || sourceVersion.isSome)
    [("business_context", .string (base64Text businessContext))]
  cases sourceVersion with
  | none =>
      simp only [fields, room_append, room_cons, room_nil, length_printString, length_printNumber, length_text]
      simp only [room_cons, room_nil, length_printString] at hWritten
      omega
  | some version =>
      have hNumber := length_printVersion (hSource version rfl).2
      simp only [fields, room_append, room_cons, room_nil, length_printString, length_printNumber, length_text]
      simp only [room_cons, room_nil, length_printString] at hWritten
      omega

/-- Every encoding fits. -/
theorem encode_total (facts : EvaluationStateFacts) : ∃ raw, facts.encode = .ok raw ∧ raw.length ≤ maxContext := by
  have hLength : (facts.layout.magic ++ canonicalBytes facts.fields).length ≤ maxContext := by
    have hFields := length_canonicalBytes facts.writable
    have hRoom := facts.room_fields
    have hMagic : facts.layout.magic.length = 26 := by
      cases facts.layout <;> decide
    rw [List.length_append, hMagic, maxContext]
    omega
  refine ⟨_, ?_, hLength⟩
  rw [encode, if_neg (Nat.not_lt.mpr hLength)]

/-- What is written, and how it starts. -/
theorem encode_ok {facts : EvaluationStateFacts} {raw : Bytes} (h : facts.encode = .ok raw) :
    raw = facts.layout.magic ++ canonicalBytes facts.fields ∧ raw.length ≤ maxContext := by
  simp only [encode] at h
  split at h
  · cases h
  · obtain rfl := Except.ok.inj h
    exact ⟨rfl, Nat.not_lt.mp ‹_›⟩

/-- Facts are read from their bytes. -/
theorem decode_encode (limit : Nat) {fromisoformat : IsoReader} (hIso : fromisoformat.Undoes) {facts : EvaluationStateFacts}
    {raw : Bytes} (h : facts.encode = .ok raw) : decode limit fromisoformat raw = .ok facts := by
  obtain ⟨hRaw, hLength⟩ := encode_ok h
  have hPrefix : facts.layout.magic <+: raw := ⟨_, hRaw.symm⟩
  refine readBack_self ?_ facts.facts_arguments h
  unfold EvaluationStateArguments.parse
  simp only
  rw [EvaluationLayout.announced_of_prefix hPrefix, require_bind_pos ⟨hLength, List.isPrefixOf_iff_prefix.mpr hPrefix⟩,
    hRaw, List.drop_left, readObject_canonical limit facts.writable, ok_bind,
    EvaluationStateArguments.read_fields hIso facts]
  rfl

/-- The magic of accepted bytes is the one of their facts. -/
theorem magic_of_decode {limit : Nat} {fromisoformat : IsoReader} {facts : EvaluationStateFacts} {raw : Bytes}
    (h : decode limit fromisoformat raw = .ok facts) {magic : Bytes} (hMagic : magic ∈ stateMagics) :
    magic <+: raw ↔ magic = facts.layout.magic := by
  have hRaw := (encode_ok (readBack_encode h)).1
  have hPrefix : facts.layout.magic <+: raw := ⟨_, hRaw.symm⟩
  constructor
  · intro hStarts
    exact stateMagics_unique hMagic facts.layout.magic_mem hStarts hPrefix
  · rintro rfl
    exact hPrefix

end EvaluationStateFacts

theorem EvaluationStateArguments.parse_expected (limit : Nat) (fromisoformat : IsoReader) (raw : Bytes) :
    EvaluationStateArguments.parse limit fromisoformat raw ≠ .error .overflowError :=
  bind_expected (require_expected _) fun _ => bind_expected (readObject_expected _ _ _) fun _ => orRefuse_expected _

/-- Reading fails otherwise than expected exactly on checked arguments whose
time is outside the calendar. -/
theorem EvaluationStateFacts.decode_expected_iff (limit : Nat) (fromisoformat : IsoReader) (raw : Bytes) :
    (EvaluationStateFacts.decode limit fromisoformat raw = .error .valueError ∨
      ∃ facts, EvaluationStateFacts.decode limit fromisoformat raw = .ok facts ∧ facts.encode = .ok raw) ↔
      ∀ arguments, EvaluationStateArguments.parse limit fromisoformat raw = .ok arguments → arguments.Checked →
        ¬ arguments.time.OutsideCalendar := by
  have hExpected := EvaluationStateArguments.parse_expected limit fromisoformat raw
  refine (readBack_expected_iff hExpected).trans ?_
  simp only [ne_eq, EvaluationStateArguments.facts_overflow_iff, not_and]

end QsAi
