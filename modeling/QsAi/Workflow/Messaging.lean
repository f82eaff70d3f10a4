import QsAi.Text
import QsAi.Foundation.BigEndian

/-! Messages between the services. Parsing of the transport bytes and the digest
are functions of those bytes, given by the libraries; what an envelope and a
body have to agree on is checked here. -/
namespace QsAi

open BigEndian

inductive MessagingKind
  | start
  | change
  | participantRetry
  | evaluationStart
  | evaluationCancel
  | commandReceipt
  | interpretationState
  | evaluationState
  | eventAcknowledgement
  /-- A number without a name, the unspecified kind among them. -/
  | other (number : Nat)
deriving DecidableEq

inductive MessagingDecision
  | accepted
  | rejected
  | held
  | other (number : Nat)
deriving DecidableEq

inductive AcknowledgementOutcome
  | stored
  | technicallyHeld
  | other (number : Nat)
deriving DecidableEq

structure MessagePayloadReference where
  producer : String
  destination : String
  messageId : String
  bodySha256 : String
  bodyLength : Nat
  organizationId : String
deriving DecidableEq

inductive EnvelopeBody
  | absent
  | inlineBody (body : Bytes)
  | payloadReference (reference : MessagePayloadReference)
deriving DecidableEq

structure MessagingEnvelope where
  schemaVersion : String
  producer : String
  destination : String
  messageId : String
  kind : MessagingKind
  aggregateKey : String
  correlationCommandId : String
  bodySha256 : String
  bodyLength : Nat
  body : EnvelopeBody
  originalOccurredAt : String
deriving DecidableEq

/-- The value of a body, with the fields the transport reads. -/
inductive BodyValue
  | start (requestId : String) (actorOrg : String)
  | change (commandId : String) (actorOrg : String)
  | participantRetry (commandId : String) (organizationId : Int)
  | evaluationStart (organizationId : Int)
  | evaluationCancel (discard : Option Bool) (organizationId : Int)
  | commandReceipt (commandId : String) (commandBodySha256 : String) (decision : MessagingDecision)
  | interpretationState (eventId : String) (actorOrg : String)
  | evaluationState (runId organizationId : String) (version : Int) (eventSequence : Nat)
      (status releaseFingerprint : String)
  | eventAcknowledgement (eventId eventBodySha256 : String) (eventKind : MessagingKind)
      (outcome : AcknowledgementOutcome)
deriving DecidableEq

/-- The kind a body belongs to. -/
def BodyValue.kind : BodyValue → MessagingKind
  | .start .. => .start
  | .change .. => .change
  | .participantRetry .. => .participantRetry
  | .evaluationStart .. => .evaluationStart
  | .evaluationCancel .. => .evaluationCancel
  | .commandReceipt .. => .commandReceipt
  | .interpretationState .. => .interpretationState
  | .evaluationState .. => .evaluationState
  | .eventAcknowledgement .. => .eventAcknowledgement

/-- The identity and the metadata of a protected wire. -/
structure OuterEnvelope where
  messageId : String
  metadata : List (String × String)
deriving DecidableEq

/-- The reading of bytes that other libraries do. -/
structure WireLibrary where
  parseEnvelope : Bytes → Option MessagingEnvelope
  /-- No value of the body is set, or one. -/
  parseBody : Bytes → Option (Option BodyValue)
  sha256 : Bytes → String
  decodeWire : Bytes → Option OuterEnvelope

inductive MessagingRefusal
  | contract (message : String)
  | wire
deriving DecidableEq

def messagingSchema : String := "qs-ai-messaging/v1"
def commandsTopic : String := "qs.ai.commands.v1"
def eventsTopic : String := "qs.ai.events.v1"
def acksTopic : String := "qs.ai.acks.v1"
def maxBody : Nat := 16 * 1024 * 1024 - 1
def inlineBody : Nat := 32 * 1024
def messagingMetadata : List (String × String) := [("secure_profile", "rm-secure-v1")]

private def smallHex (c : Char) : Bool := c.isDigit || ('a' ≤ c && c ≤ 'f')

/-- A canonical UUID: groups of 8, 4, 4, 4 and 12 small hexadecimal digits. -/
def validMessageId (value : String) : Bool :=
  let characters := value.toList
  characters.length == 36 &&
    (List.range 36).all fun i =>
      if i = 8 ∨ i = 13 ∨ i = 18 ∨ i = 23 then characters[i]? == some '-' else (characters[i]?.map smallHex).getD false

/-- A positive decimal number of at most 64 bits. -/
def validNumber (value : String) : Bool :=
  match value.toList with
  | [] => false
  | first :: rest =>
      ('1' ≤ first && first ≤ '9') && rest.length ≤ 19 && rest.all Char.isDigit &&
        decide ((first :: rest).foldl (fun number c => 10 * number + (c.toNat - 48)) 0 ≤ 2 ^ 64 - 1)

def validHash (value : String) : Bool := value.toList.length == 64 && value.toList.all smallHex

private theorem smallHex_code {c : Char} (h : smallHex c = true) : 48 ≤ c.toNat ∧ c.toNat ≤ 102 ∧ c.toNat ≠ 92 := by
  delta smallHex Char.isDigit at h
  simp only [Bool.or_eq_true, Bool.and_eq_true, decide_eq_true_eq, UInt32.le_iff_toNat_le, ge_iff_le, Char.le_def] at h
  change (48 ≤ c.toNat ∧ c.toNat ≤ 57) ∨ (97 ≤ c.toNat ∧ c.toNat ≤ 102) at h
  omega

private theorem digit_code {c : Char} (h : c.isDigit = true) : 48 ≤ c.toNat ∧ c.toNat ≤ 57 := by
  delta Char.isDigit at h
  simp only [Bool.and_eq_true, decide_eq_true_eq, UInt32.le_iff_toNat_le, ge_iff_le] at h
  exact h

/-- The characters of a UUID, and their number. -/
theorem codes_of_validMessageId {value : String} (h : validMessageId value = true) :
    value.toList.length = 36 ∧ ∀ c ∈ value.toList, 45 ≤ c.toNat ∧ c.toNat ≤ 102 ∧ c.toNat ≠ 92 := by
  simp only [validMessageId, Bool.and_eq_true, beq_iff_eq, List.all_eq_true, List.mem_range] at h
  obtain ⟨hLength, hAll⟩ := h
  refine ⟨hLength, ?_⟩
  intro c hc
  obtain ⟨i, hi, rfl⟩ := List.mem_iff_getElem.mp hc
  have hCharacter := hAll i (by omega)
  rw [List.getElem?_eq_getElem hi] at hCharacter
  split at hCharacter
  · simp only [Option.some.injEq, beq_iff_eq] at hCharacter
    rw [hCharacter]
    decide
  · have hCode := smallHex_code hCharacter
    omega

/-- The characters of a positive number, and their number. -/
theorem codes_of_validNumber {value : String} (h : validNumber value = true) :
    value.toList.length ≤ 20 ∧ ∀ c ∈ value.toList, 48 ≤ c.toNat ∧ c.toNat ≤ 57 := by
  unfold validNumber at h
  split at h
  · cases h
  · rename_i first rest hChars
    simp only [Bool.and_eq_true, decide_eq_true_eq, List.all_eq_true, Char.le_def, UInt32.le_iff_toNat_le] at h
    obtain ⟨⟨⟨⟨hLow, hHigh⟩, hLength⟩, hDigits⟩, -⟩ := h
    change 49 ≤ first.toNat at hLow
    change first.toNat ≤ 57 at hHigh
    rw [hChars]
    refine ⟨by rw [List.length_cons]; omega, ?_⟩
    intro c hc
    rcases List.mem_cons.mp hc with rfl | hc
    · omega
    · exact digit_code (hDigits c hc)

/-- Producer, destination and topic of a kind. -/
def route : MessagingKind → Except MessagingRefusal (String × String × String)
  | .start | .change | .participantRetry | .evaluationStart | .evaluationCancel => .ok ("qs-server", "qs-ai", commandsTopic)
  | .commandReceipt | .interpretationState | .evaluationState => .ok ("qs-ai", "qs-server", eventsTopic)
  | .eventAcknowledgement => .ok ("qs-server", "qs-ai", acksTopic)
  | .other _ => .error (.contract "unsupported messaging kind")

/-- The body is inline or is referred to with the facts of its envelope. -/
def bodyFits (envelope : MessagingEnvelope) (producer destination : String) : Bool :=
  match envelope.body with
  | .inlineBody body => body.length == envelope.bodyLength
  | .payloadReference reference =>
      reference.producer == producer && reference.destination == destination &&
        reference.messageId == envelope.messageId && reference.bodySha256 == envelope.bodySha256 &&
        reference.bodyLength == envelope.bodyLength && validNumber reference.organizationId
  | .absent => false

def validateHeader (envelope : MessagingEnvelope) (topic : String) : Except MessagingRefusal Unit := do
  let (producer, destination, expectedTopic) ← route envelope.kind
  Guarded.require ((envelope.schemaVersion == messagingSchema && validMessageId envelope.messageId &&
    0 < byteLength envelope.aggregateKey && byteLength envelope.aggregateKey ≤ 192 &&
    0 < envelope.bodyLength && envelope.bodyLength ≤ maxBody && validHash envelope.bodySha256 &&
    (envelope.producer, envelope.destination, topic) == (producer, destination, expectedTopic) &&
    byteLength envelope.originalOccurredAt ≤ 64) = true ∧ bodyFits envelope producer destination = true)
    (.contract "invalid messaging header")

/-- What the identity in a body has to be. -/
def bodyAgrees (envelope : MessagingEnvelope) : BodyValue → Bool
  | .start requestId _ => requestId == envelope.messageId
  | .change commandId _ => commandId == envelope.messageId
  | .participantRetry commandId _ => commandId == envelope.messageId
  | .evaluationStart _ => true
  | .evaluationCancel discard _ => discard.isSome
  | .commandReceipt commandId commandBodySha256 decision =>
      validMessageId commandId && commandId == envelope.correlationCommandId && validHash commandBodySha256 &&
        [.accepted, .rejected, .held].contains decision
  | .interpretationState eventId _ => eventId == envelope.messageId
  | .evaluationState runId organizationId _ eventSequence _ _ =>
      validMessageId runId && validNumber organizationId && 0 < eventSequence
  | .eventAcknowledgement eventId eventBodySha256 eventKind outcome =>
      validMessageId eventId && validHash eventBodySha256 &&
        [.commandReceipt, .interpretationState, .evaluationState].contains eventKind &&
        [.stored, .technicallyHeld].contains outcome

def parseBody (library : WireLibrary) (envelope : MessagingEnvelope) (raw : Bytes) : Except MessagingRefusal BodyValue := do
  let (_, _, topic) ← route envelope.kind
  validateHeader envelope topic
  Guarded.require (raw.length = envelope.bodyLength ∧ library.sha256 raw = envelope.bodySha256)
    (.contract "original body mismatch")
  let parsed ← Guarded.demand (library.parseBody raw) (.contract "invalid messaging body")
  let value ← Guarded.demand (parsed.filter (·.kind = envelope.kind)) (.contract "messaging kind/body mismatch")
  Guarded.require (bodyAgrees envelope value = true) (.contract "invalid original message identity or decision")
  pure value

end QsAi
