import QsAi.Workflow.Messaging
import Mathlib.Tactic.IntervalCases

/-! The local archive of a frozen message: a fixed layout of numbers, the header
and the body, behind an optional context of its own length. The layout is a
bijection between its well sized fields and the byte strings it reads; the
first wire travels beside it. -/
namespace QsAi

open BigEndian Guarded

/-- The bytes of an ASCII text. -/
def asciiBytes (value : String) : Bytes := value.toList.map fun c => UInt8.ofNat c.toNat

def archiveMagic : Bytes := asciiBytes "qs-ai-archive/v1" ++ [0]
def archiveContextMagic : Bytes := asciiBytes "qs-ai-archive/v2" ++ [0]
def maxContext : Nat := 16384
def maxHeader : Nat := inlineBody + 2048

/-- Bytes of the two numbers of 64 bits, the flags and the two lengths. -/
def layoutSize : Nat := 8 + 8 + 1 + 4 + 4

structure FrozenArchive where
  header : Bytes
  body : Bytes
  wire : Bytes
  organizationId : Nat
  sequence : Nat
  ordered : Bool
  requiresReceipt : Bool
  context : Bytes := []
  bounded : header.length ≤ maxHeader ∧ body.length ≤ maxBody ∧ wire.length ≤ 262144 ∧ context.length ≤ maxContext
deriving DecidableEq

/-- What the payload of an archive holds: everything but the wire. -/
structure ArchiveFields where
  header : Bytes
  body : Bytes
  organizationId : Nat
  sequence : Nat
  ordered : Bool
  requiresReceipt : Bool
  context : Bytes
deriving DecidableEq

/-- The organization a body names, where its kind has one. -/
def BodyValue.organization : BodyValue → Option String
  | .start _ actorOrg => some actorOrg
  | .change _ actorOrg => some actorOrg
  | .participantRetry _ organizationId => some (toString organizationId)
  | .evaluationStart organizationId => some (toString organizationId)
  | .evaluationCancel _ organizationId => some (toString organizationId)
  | .interpretationState _ actorOrg => some actorOrg
  | .evaluationState _ organizationId _ _ _ _ => some organizationId
  | .commandReceipt .. => none
  | .eventAcknowledgement .. => none

def EnvelopeBody.referencedOrganization : EnvelopeBody → Option String
  | .payloadReference reference => some reference.organizationId
  | _ => none

namespace FrozenArchive

def fields (archive : FrozenArchive) : ArchiveFields :=
  ⟨archive.header, archive.body, archive.organizationId, archive.sequence, archive.ordered, archive.requiresReceipt,
    archive.context⟩

def envelope (library : WireLibrary) (archive : FrozenArchive) : Except MessagingRefusal MessagingEnvelope :=
  demand (library.parseEnvelope archive.header) (.contract "invalid frozen archive header")

def validate (library : WireLibrary) (archive : FrozenArchive) : Except MessagingRefusal Unit := do
  require (0 < archive.organizationId ∧ archive.organizationId ≤ 2 ^ 64 - 1 ∧ 0 < archive.sequence ∧
      archive.sequence ≤ 2 ^ 64 - 1 ∧ 0 < archive.header.length ∧ archive.header.length ≤ maxHeader ∧
      0 < archive.body.length ∧ archive.body.length ≤ maxBody ∧ 0 < archive.wire.length ∧ archive.wire.length ≤ 262144)
    (.contract "invalid frozen archive bounds")
  let envelope ← archive.envelope library
  let body ← parseBody library envelope archive.body
  let org := toString archive.organizationId
  require (envelope.body.referencedOrganization.all (· == org) = true)
    (.contract "archive reference organization differs")
  require (body.organization.all (· == org) = true) (.contract "archive body organization differs")
  let outer ← demand (library.decodeWire archive.wire) .wire
  require (outer.messageId = envelope.messageId ∧ outer.metadata = messagingMetadata)
    (.contract "archive first wire identity differs")

end FrozenArchive

namespace ArchiveFields

def flags (fields : ArchiveFields) : Nat := fields.ordered.toNat ||| (fields.requiresReceipt.toNat <<< 1)

/-- The record without its context. -/
def original (fields : ArchiveFields) : Bytes :=
  archiveMagic ++ (pack 8 fields.organizationId ++ (pack 8 fields.sequence ++ (pack 1 fields.flags ++
    (pack 4 fields.header.length ++ (pack 4 fields.body.length ++ (fields.header ++ fields.body))))))

def layout (fields : ArchiveFields) : Bytes :=
  if fields.context = [] then fields.original
  else archiveContextMagic ++ (pack 4 fields.context.length ++ (fields.context ++ fields.original))

/-- The sizes that the layout can express. -/
structure Sized (fields : ArchiveFields) : Prop where
  organizationId : fields.organizationId < 256 ^ 8
  sequence : fields.sequence < 256 ^ 8
  header : 0 < fields.header.length ∧ fields.header.length ≤ maxHeader
  body : 0 < fields.body.length ∧ fields.body.length ≤ maxBody
  context : fields.context.length ≤ maxContext

end ArchiveFields

/-- The encoded archive; only a valid one is encoded. -/
def FrozenArchive.encode (library : WireLibrary) (archive : FrozenArchive) : Except MessagingRefusal Bytes := do
  archive.validate library
  pure archive.fields.layout

/-- Take off the one explicit extension, if the payload starts with it. -/
def splitContext (payload : Bytes) : Except MessagingRefusal (Bytes × Bytes) :=
  if archiveContextMagic.isPrefixOf payload then do
    let start := archiveContextMagic.length + 4
    require (start ≤ payload.length) (.contract "invalid local context prefix")
    let length := unpack (slice payload archiveContextMagic.length 4)
    require (0 < length ∧ length ≤ maxContext ∧ start + length < payload.length) (.contract "invalid local context length")
    pure (slice payload start length, payload.drop (start + length))
  else pure ([], payload)

/-- Read the record behind the context. -/
def readOriginal (context payload : Bytes) : Except MessagingRefusal ArchiveFields := do
  let start := archiveMagic.length + layoutSize
  require (start ≤ payload.length ∧ archiveMagic.isPrefixOf payload = true) (.contract "invalid archive codec version")
  let numbers := archiveMagic.length
  let flags := unpack (slice payload (numbers + 16) 1)
  let headerLength := unpack (slice payload (numbers + 17) 4)
  let bodyLength := unpack (slice payload (numbers + 21) 4)
  require (flags ≤ 3 ∧ 0 < headerLength ∧ headerLength ≤ maxHeader ∧ 0 < bodyLength ∧ bodyLength ≤ maxBody ∧
    headerLength + bodyLength = payload.length - start) (.contract "invalid archive byte lengths")
  pure {
    header := slice payload start headerLength
    body := payload.drop (start + headerLength)
    organizationId := unpack (slice payload numbers 8)
    sequence := unpack (slice payload (numbers + 8) 8)
    ordered := flags.testBit 0
    requiresReceipt := flags.testBit 1
    context := context }

def readLayout (payload : Bytes) : Except MessagingRefusal ArchiveFields := do
  let (context, original) ← splitContext payload
  readOriginal context original

/-- The archive of these fields and this wire, if its bytes are bounded. -/
def ArchiveFields.freeze (fields : ArchiveFields) (wire : Bytes) : Except MessagingRefusal FrozenArchive :=
  if h : fields.header.length ≤ maxHeader ∧ fields.body.length ≤ maxBody ∧ wire.length ≤ 262144 ∧
      fields.context.length ≤ maxContext then
    .ok ⟨fields.header, fields.body, wire, fields.organizationId, fields.sequence, fields.ordered,
      fields.requiresReceipt, fields.context, h⟩
  else .error (.contract "frozen archive byte bounds exceeded")

def decodeArchive (library : WireLibrary) (payload wire : Bytes) : Except MessagingRefusal FrozenArchive := do
  let fields ← readLayout payload
  let result ← fields.freeze wire
  result.validate library
  pure result

theorem length_archiveMagic : archiveMagic.length = 17 := by decide

theorem length_archiveContextMagic : archiveContextMagic.length = 17 := by decide

theorem flags_lt (fields : ArchiveFields) : fields.flags ≤ 3 := by
  unfold ArchiveFields.flags
  cases fields.ordered <;> cases fields.requiresReceipt <;> decide

theorem flags_ordered (fields : ArchiveFields) : fields.flags.testBit 0 = fields.ordered := by
  unfold ArchiveFields.flags
  cases fields.ordered <;> cases fields.requiresReceipt <;> decide

theorem flags_requiresReceipt (fields : ArchiveFields) : fields.flags.testBit 1 = fields.requiresReceipt := by
  unfold ArchiveFields.flags
  cases fields.ordered <;> cases fields.requiresReceipt <;> decide

/-- Two flags are their number. -/
theorem flags_of_testBit {flags : Nat} (h : flags ≤ 3) :
    (flags.testBit 0).toNat ||| ((flags.testBit 1).toNat <<< 1) = flags := by
  interval_cases flags <;> decide

namespace ArchiveFields

theorem length_original (fields : ArchiveFields) :
    fields.original.length = 17 + layoutSize + fields.header.length + fields.body.length := by
  simp only [original, List.length_append, length_pack, length_archiveMagic, layoutSize]
  omega

/-- The record of sized fields is read back, whatever its context. -/
theorem readOriginal_original {fields : ArchiveFields} (h : fields.Sized) :
    readOriginal fields.context fields.original = .ok fields := by
  have hLength := fields.length_original
  have hHeader := h.header
  have hBody := h.body
  have hFlags := flags_lt fields
  have hHeaderFits : fields.header.length < 256 ^ 4 := Nat.lt_of_le_of_lt hHeader.2 (by decide)
  have hBodyFits : fields.body.length < 256 ^ 4 := Nat.lt_of_le_of_lt hBody.2 (by decide)
  have hFlagsFit : fields.flags < 256 ^ 1 := Nat.lt_of_le_of_lt hFlags (by decide)
  have hMagic := length_archiveMagic
  have hOrganization : slice fields.original 17 8 = pack 8 fields.organizationId :=
    @slice_between _ archiveMagic _ _ _ _ rfl hMagic (length_pack ..)
  have hSequence : slice fields.original 25 8 = pack 8 fields.sequence :=
    @slice_between _ (archiveMagic ++ pack 8 fields.organizationId) _ _ _ _ (by simp [original]; rfl) (by simp [hMagic]) (by simp)
  have hFlagByte : slice fields.original 33 1 = pack 1 fields.flags :=
    @slice_between _ (archiveMagic ++ (pack 8 fields.organizationId ++ pack 8 fields.sequence)) _ _ _ _
      (by simp [original]; rfl) (by simp [hMagic]) (by simp)
  have hHeaderLength : slice fields.original 34 4 = pack 4 fields.header.length :=
    @slice_between _ (archiveMagic ++ (pack 8 fields.organizationId ++ (pack 8 fields.sequence ++ pack 1 fields.flags)))
      _ _ _ _ (by simp [original]; rfl) (by simp [hMagic]) (by simp)
  have hBodyLength : slice fields.original 38 4 = pack 4 fields.body.length :=
    @slice_between _ (archiveMagic ++ (pack 8 fields.organizationId ++ (pack 8 fields.sequence ++
      (pack 1 fields.flags ++ pack 4 fields.header.length)))) _ _ _ _ (by simp [original]; rfl) (by simp [hMagic]) (by simp)
  have hNumbers : fields.original = (archiveMagic ++ (pack 8 fields.organizationId ++ (pack 8 fields.sequence ++
      (pack 1 fields.flags ++ (pack 4 fields.header.length ++ pack 4 fields.body.length))))) ++
        (fields.header ++ fields.body) := by simp [original]
  have hHeaderBytes : slice fields.original 42 fields.header.length = fields.header :=
    slice_between hNumbers (by simp [hMagic]) rfl
  have hBodyBytes : fields.original.drop (42 + fields.header.length) = fields.body :=
    drop_behind (hNumbers.trans (List.append_assoc _ _ _).symm) (by simp [hMagic]; omega)
  simp only [readOriginal, hMagic, layoutSize, hOrganization, hSequence, hFlagByte, hHeaderLength, hBodyLength,
    unpack_pack h.organizationId, unpack_pack h.sequence, unpack_pack hFlagsFit, unpack_pack hHeaderFits,
    unpack_pack hBodyFits, Nat.reduceAdd, hHeaderBytes, hBodyBytes, flags_ordered, flags_requiresReceipt]
  rw [require_bind_ok, require_bind_ok]
  refine ⟨⟨?_, isPrefixOf_append _ _⟩, ⟨hFlags, hHeader.1, hHeader.2, hBody.1, hBody.2, ?_⟩, rfl⟩
  · rw [hLength, layoutSize]
    omega
  · rw [hLength, layoutSize]
    omega

/-- What a record is read as is well sized and writes the record again. -/
theorem original_readOriginal {context payload : Bytes} {fields : ArchiveFields}
    (h : readOriginal context payload = .ok fields) :
    fields.original = payload ∧ fields.context = context ∧
      (context.length ≤ maxContext → fields.Sized) := by
  have hMagic := length_archiveMagic
  simp only [readOriginal, hMagic, layoutSize, Nat.reduceAdd] at h
  rw [require_bind_ok, require_bind_ok] at h
  obtain ⟨⟨hLong, hStart⟩, ⟨hFlags, hHeaderSome, hHeaderMax, hBodySome, hBodyMax, hTotal⟩, hFields⟩ := h
  obtain rfl := Except.ok.inj hFields
  have hHeaderLength : (slice payload 42 (unpack (slice payload 34 4))).length = unpack (slice payload 34 4) :=
    length_slice (by omega)
  have hBodyLength : (payload.drop (42 + unpack (slice payload 34 4))).length = unpack (slice payload 38 4) := by
    rw [List.length_drop]
    omega
  refine ⟨?_, rfl, fun hContext => ?_⟩
  · have hPayload := eq_head_append hStart
    rw [hMagic] at hPayload
    have hFlagNumber : (ArchiveFields.mk (slice payload 42 (unpack (slice payload 34 4)))
        (payload.drop (42 + unpack (slice payload 34 4))) (unpack (slice payload 17 8)) (unpack (slice payload 25 8))
        ((unpack (slice payload 33 1)).testBit 0) ((unpack (slice payload 33 1)).testBit 1) context).flags =
          unpack (slice payload 33 1) := flags_of_testBit hFlags
    rw [original, hFlagNumber, hHeaderLength, hBodyLength, pack_unpack_slice (by omega), pack_unpack_slice (by omega),
      pack_unpack_slice (by omega), pack_unpack_slice (by omega), pack_unpack_slice (by omega),
      ← split_slice payload 42, ← split_slice payload 38 4, ← split_slice payload 34 4, ← split_slice payload 33 1,
      ← split_slice payload 25 8, ← split_slice payload 17 8]
    exact hPayload.symm
  · exact {
      organizationId := unpack_slice_lt (by omega)
      sequence := unpack_slice_lt (by omega)
      header := by rw [hHeaderLength]; exact ⟨hHeaderSome, hHeaderMax⟩
      body := by rw [hBodyLength]; exact ⟨hBodySome, hBodyMax⟩
      context := hContext }

/-- A record does not start like a context. -/
theorem original_plain (fields : ArchiveFields) : archiveContextMagic.isPrefixOf fields.original = false := by
  have hDiffer : archiveContextMagic.isPrefixOf (archiveMagic ++ []) = false := by decide
  rw [Bool.eq_false_iff]
  intro hStart
  have hHead := eq_head_append hStart
  have hTake := congrArg (List.take 17) hHead
  rw [original, List.take_append_of_le_length (by decide), List.take_append_of_le_length (by decide)] at hTake
  exact absurd hTake (by decide)

/-- Sized fields are read back from their layout. -/
theorem readLayout_layout {fields : ArchiveFields} (h : fields.Sized) : readLayout fields.layout = .ok fields := by
  have hSplit : splitContext fields.layout = .ok (fields.context, fields.original) := by
    unfold layout
    split
    · rename_i hNone
      rw [splitContext, if_neg (by rw [original_plain]; decide), hNone]
      rfl
    · rename_i hSome
      have hMagic := length_archiveContextMagic
      have hPositive : 0 < fields.context.length := List.length_pos_iff.mpr hSome
      have hFits : fields.context.length < 256 ^ 4 := Nat.lt_of_le_of_lt h.context (by decide)
      have hLength : slice (archiveContextMagic ++ (pack 4 fields.context.length ++ (fields.context ++ fields.original)))
          17 4 = pack 4 fields.context.length := slice_between rfl hMagic (length_pack ..)
      have hContext : slice (archiveContextMagic ++ (pack 4 fields.context.length ++ (fields.context ++ fields.original)))
          21 fields.context.length = fields.context :=
        @slice_between _ (archiveContextMagic ++ pack 4 fields.context.length) _ _ _ _ (by simp; rfl) (by simp [hMagic]) rfl
      have hRest : (archiveContextMagic ++ (pack 4 fields.context.length ++ (fields.context ++ fields.original))).drop
          (21 + fields.context.length) = fields.original :=
        @drop_behind _ (archiveContextMagic ++ (pack 4 fields.context.length ++ fields.context)) _ _ (by simp)
          (by simp [hMagic]; omega)
      rw [splitContext, if_pos (isPrefixOf_append _ _)]
      simp only [hMagic, Nat.reduceAdd, hLength, unpack_pack hFits, hContext, hRest]
      rw [require_bind_ok, require_bind_ok]
      have hOriginal := fields.length_original
      refine ⟨?_, ⟨hPositive, h.context, ?_⟩, rfl⟩
      · simp [hMagic]
        omega
      · simp [hMagic, hOriginal]
        omega
  rw [readLayout, hSplit, ok_bind]
  exact readOriginal_original h

/-- Whatever the layout reads is well sized and has this layout. -/
theorem layout_readLayout {payload : Bytes} {fields : ArchiveFields} (h : readLayout payload = .ok fields) :
    fields.layout = payload ∧ fields.Sized := by
  rw [readLayout, bind_ok] at h
  obtain ⟨⟨context, record⟩, hSplit, hRead⟩ := h
  obtain ⟨hOriginal, hContext, hSized⟩ := original_readOriginal hRead
  unfold splitContext at hSplit
  split at hSplit
  · rename_i hStart
    have hMagic := length_archiveContextMagic
    simp only [hMagic, Nat.reduceAdd] at hSplit
    rw [require_bind_ok, require_bind_ok] at hSplit
    obtain ⟨hLong, ⟨hPositive, hMax, hTotal⟩, hParts⟩ := hSplit
    obtain ⟨rfl, rfl⟩ := Prod.mk.inj (Except.ok.inj hParts)
    have hLength : (slice payload 21 (unpack (slice payload 17 4))).length = unpack (slice payload 17 4) :=
      length_slice (by omega)
    have hPayload := eq_head_append hStart
    rw [hMagic] at hPayload
    have hSome : fields.context ≠ [] := by
      rw [hContext]
      intro hNone
      rw [hNone, List.length_nil] at hLength
      omega
    refine ⟨?_, hSized (by rw [hLength]; exact hMax)⟩
    rw [layout, if_neg hSome, hContext, hLength, hOriginal, pack_unpack_slice (by omega), ← split_slice payload 21,
      ← split_slice payload 17 4]
    exact hPayload.symm
  · obtain ⟨rfl, rfl⟩ := Prod.mk.inj (Except.ok.inj hSplit)
    refine ⟨?_, hSized (Nat.zero_le _)⟩
    rw [layout, if_pos hContext, hOriginal]

end ArchiveFields

namespace FrozenArchive

variable {library : WireLibrary} {archive : FrozenArchive}

/-- A valid archive is well sized. -/
theorem sized_of_valid (h : archive.validate library = .ok ⟨⟩) : archive.fields.Sized := by
  rw [validate, require_bind_ok] at h
  obtain ⟨⟨-, hOrganization, -, hSequence, hHeader, hHeaderMax, hBody, hBodyMax, -, -⟩, -⟩ := h
  exact {
    organizationId := Nat.lt_of_le_of_lt hOrganization (by decide)
    sequence := Nat.lt_of_le_of_lt hSequence (by decide)
    header := ⟨hHeader, hHeaderMax⟩
    body := ⟨hBody, hBodyMax⟩
    context := archive.bounded.2.2.2 }

theorem freeze_fields (archive : FrozenArchive) : archive.fields.freeze archive.wire = .ok archive := by
  exact dif_pos archive.bounded

theorem fields_of_freeze {fields : ArchiveFields} {wire : Bytes} (h : fields.freeze wire = .ok archive) :
    archive.fields = fields ∧ archive.wire = wire := by
  unfold ArchiveFields.freeze at h
  split at h
  · obtain rfl := Except.ok.inj h
    exact ⟨rfl, rfl⟩
  · cases h

theorem encode_ok {payload : Bytes} :
    archive.encode library = .ok payload ↔ archive.validate library = .ok ⟨⟩ ∧ archive.fields.layout = payload := by
  rw [encode, bind_ok]
  constructor
  · rintro ⟨⟨⟩, hValid, hPayload⟩
    exact ⟨hValid, Except.ok.inj hPayload⟩
  · rintro ⟨hValid, hPayload⟩
    exact ⟨⟨⟩, hValid, congrArg Except.ok hPayload⟩

end FrozenArchive

/-- Archives and pairs of a payload and a wire decode and encode each other, so
two archives of one payload differ at most in their wires. -/
theorem archive_codec (library : WireLibrary) :
    (∀ archive, FrozenArchive.validate library archive = .ok ⟨⟩ →
      ∃ payload, archive.encode library = .ok payload ∧ decodeArchive library payload archive.wire = .ok archive) ∧
    (∀ payload wire archive, decodeArchive library payload wire = .ok archive →
      archive.encode library = .ok payload ∧ archive.wire = wire) ∧
    (∀ (first other : FrozenArchive) (payload : Bytes), first.encode library = .ok payload →
      other.encode library = .ok payload → first.fields = other.fields ∧ (first.wire = other.wire → first = other)) := by
  refine ⟨?_, ?_, ?_⟩
  · intro archive hValid
    refine ⟨archive.fields.layout, FrozenArchive.encode_ok.mpr ⟨hValid, rfl⟩, ?_⟩
    rw [decodeArchive, ArchiveFields.readLayout_layout (FrozenArchive.sized_of_valid hValid)]
    rw [ok_bind, archive.freeze_fields, ok_bind, hValid]
    rfl
  · intro payload wire archive h
    rw [decodeArchive, bind_ok] at h
    obtain ⟨fields, hRead, h⟩ := h
    obtain ⟨result, hFreeze, h⟩ := (bind_ok _ _ _).mp h
    obtain ⟨⟨⟩, hValid, hResult⟩ := (bind_ok _ _ _).mp h
    obtain rfl := Except.ok.inj hResult
    obtain ⟨rfl, rfl⟩ := FrozenArchive.fields_of_freeze hFreeze
    exact ⟨FrozenArchive.encode_ok.mpr ⟨hValid, (ArchiveFields.layout_readLayout hRead).1⟩, rfl⟩
  · intro first other payload hFirst hOther
    rw [FrozenArchive.encode_ok] at hFirst hOther
    have hReadFirst := ArchiveFields.readLayout_layout (FrozenArchive.sized_of_valid hFirst.1)
    have hReadOther := ArchiveFields.readLayout_layout (FrozenArchive.sized_of_valid hOther.1)
    rw [hFirst.2] at hReadFirst
    rw [hOther.2] at hReadOther
    have hFields : first.fields = other.fields := Except.ok.inj (hReadFirst.symm.trans hReadOther)
    refine ⟨hFields, fun hWire => ?_⟩
    have hFreeze := first.freeze_fields
    rw [hFields, hWire] at hFreeze
    exact (Except.ok.inj (hFreeze.symm.trans other.freeze_fields))

/-- One envelope, known by the bytes of its header. -/
def startEnvelope : MessagingEnvelope where
  schemaVersion := messagingSchema
  producer := "qs-server"
  destination := "qs-ai"
  messageId := "00000000-0000-4000-8000-000000000001"
  kind := .evaluationStart
  aggregateKey := "run"
  correlationCommandId := ""
  bodySha256 := String.ofList (List.replicate 64 '0')
  bodyLength := 1
  body := .inlineBody [8]
  originalOccurredAt := ""

/-- Libraries that know one message, and every sealing of it. -/
def oneMessage : WireLibrary where
  parseEnvelope header := if header = [7] then some startEnvelope else none
  parseBody body := if body = [8] then some (some (.evaluationStart 1)) else none
  sha256 _ := startEnvelope.bodySha256
  decodeWire wire := if wire = [] then none else some ⟨startEnvelope.messageId, messagingMetadata⟩

theorem sealed_bounded (byte : UInt8) :
    ([7] : Bytes).length ≤ maxHeader ∧ ([8] : Bytes).length ≤ maxBody ∧ [byte].length ≤ 262144 ∧
      ([] : Bytes).length ≤ maxContext := by
  refine ⟨by decide, by decide, ?_, by decide⟩
  rw [List.length_singleton]
  decide

/-- An archive of the message under a wire of one byte. -/
def sealedBy (byte : UInt8) : FrozenArchive := ⟨[7], [8], [byte], 1, 5, false, true, [], sealed_bounded byte⟩

/-- Two sealings of one message are two archives with the same payload. -/
theorem archive_payload_shared :
    (sealedBy 1).encode oneMessage = .ok (sealedBy 1).fields.layout ∧
      (sealedBy 2).encode oneMessage = .ok (sealedBy 1).fields.layout ∧ sealedBy 1 ≠ sealedBy 2 := by
  decide +kernel

end QsAi
