import QsAi.Run.SerialCompletion

/-! Stored documents. The candidate of a generation and the result of a judge
call are stored as JSON and read back for every later projection; what the
writer accepted, the reader accepts again. -/
namespace QsAi

open Guarded Keyed PyJson Binary64

def AssertionScope.name : AssertionScope → String
  | .default => "default"
  | .case => "case"

def AssertionScope.ofName (name : String) : Option AssertionScope :=
  if name = "default" then some .default else if name = "case" then some .case else none

def AssertionStatus.name : AssertionStatus → String
  | .passed => "passed"
  | .failed => "failed"
  | .pendingSemantic => "pending_semantic"
  | .blocked => "blocked"

def AssertionStatus.ofName (name : String) : Option AssertionStatus :=
  if name = "passed" then some .passed
  else if name = "failed" then some .failed
  else if name = "pending_semantic" then some .pendingSemantic
  else if name = "blocked" then some .blocked
  else none

def scopeCodec : Codec AssertionScope :=
  Codec.string.via AssertionScope.ofName AssertionScope.name (by rintro (_ | _) <;> rfl)

def statusCodec : Codec AssertionStatus :=
  Codec.string.via AssertionStatus.ofName AssertionStatus.name (by rintro (_ | _ | _ | _) <;> rfl)

/-- A receipt with the identity check of its constructor. -/
def receiptCodec : Codec AssertionReceipt where
  write receipt := .object
    [(text "type", Codec.string.write receipt.type), (text "scope", scopeCodec.write receipt.scope),
      (text "ordinal", Codec.nat.write receipt.ordinal), (text "hard", Codec.bool.write receipt.hard),
      (text "evaluator", Codec.string.write receipt.evaluator), (text "status", statusCodec.write receipt.status),
      (text "detail", Codec.string.write receipt.detail)]
  read
    | .object fields => do
        let type ← Codec.string.field fields "type"
        let scope ← scopeCodec.field fields "scope"
        let ordinal ← Codec.nat.field fields "ordinal"
        let hard ← Codec.bool.field fields "hard"
        let evaluator ← Codec.string.field fields "evaluator"
        let status ← statusCodec.field fields "status"
        let detail ← Codec.string.field fields "detail"
        if h : strip type ≠ "" ∧ strip evaluator ≠ "" ∧ 1 ≤ ordinal then
          some ⟨type, scope, ordinal, hard, evaluator, status, detail, h⟩
        else none
    | _ => none
  read_write receipt := by simp [Codec.field, receipt.identity]

/-- A number keeps its spelling: an `int` or a float that stands for one. -/
def scoreCodec : Codec Score where
  write score :=
    match score.spelling with
    | .integer => .int score.value
    | .decimal => .float (.finite score.value)
  read
    | .int value => some ⟨value, .integer⟩
    | .float value => value.integer?.map fun value => ⟨value, .decimal⟩
    | _ => none
  read_write score := by
    cases score with
    | mk value spelling => cases spelling <;> simp [Double.integer?]

def resultCodec : Codec SemanticResult where
  write result := .object
    [(text "evaluator_version", Codec.string.write result.evaluatorVersion),
      (text "scores", (Codec.string.pair scoreCodec).list.write result.scores),
      (text "rationale", Codec.string.write result.rationale),
      (text "decisions", receiptCodec.list.write result.decisions),
      (text "output_fingerprint", Codec.string.write result.outputFingerprint)]
  read
    | .object fields => do
        let evaluatorVersion ← Codec.string.field fields "evaluator_version"
        let scores ← (Codec.string.pair scoreCodec).list.field fields "scores"
        let rationale ← Codec.string.field fields "rationale"
        let decisions ← receiptCodec.list.field fields "decisions"
        let outputFingerprint ← Codec.string.field fields "output_fingerprint"
        some ⟨evaluatorVersion, scores, rationale, decisions, outputFingerprint⟩
    | _ => none
  read_write result := by simp [Codec.field]

/-- The candidate of a generation. The judge's part is missing until a judge
call was accepted. -/
def candidateCodec : Codec Candidate where
  write candidate := .object <|
    [(text "id", Codec.string.write candidate.id),
      (text "generation_execution_id", Codec.string.write candidate.generationExecutionId),
      (text "normalized_output_fingerprint", Codec.string.write candidate.normalizedOutputFingerprint),
      (text "accepted_at", Codec.string.write candidate.acceptedAt),
      (text "assertions", receiptCodec.list.write candidate.assertions),
      (text "review_ready", Codec.bool.write candidate.reviewReady)] ++
    receiptCodec.list.entry "semantic_assertions" candidate.semanticAssertions ++
    Codec.string.entry "accepted_semantic_execution_id" candidate.acceptedSemanticExecutionId
  read
    | .object fields => do
        let id ← Codec.string.field fields "id"
        let generationExecutionId ← Codec.string.field fields "generation_execution_id"
        let normalizedOutputFingerprint ← Codec.string.field fields "normalized_output_fingerprint"
        let acceptedAt ← Codec.string.field fields "accepted_at"
        let assertions ← receiptCodec.list.field fields "assertions"
        let reviewReady ← Codec.bool.field fields "review_ready"
        let semanticAssertions ← receiptCodec.list.optional fields "semantic_assertions"
        let acceptedSemanticExecutionId ← Codec.string.optional fields "accepted_semantic_execution_id"
        some ⟨id, generationExecutionId, normalizedOutputFingerprint, acceptedAt, assertions, reviewReady,
          semanticAssertions, acceptedSemanticExecutionId⟩
    | _ => none
  read_write candidate := by
    cases candidate with
    | mk id generation fingerprint acceptedAt assertions ready semantic accepted =>
        cases semantic <;> cases accepted <;> simp [Codec.field, Codec.optional, Codec.entry]

/-! Reading stored rows back. -/

/-- The row after its candidate went through the stored document. -/
def GenerationRow.reload (row : GenerationRow) : Option GenerationRow :=
  match row.candidate with
  | none => some row
  | some candidate => (candidateCodec.read (candidateCodec.write candidate)).map fun candidate =>
      { row with candidate := some candidate }

/-- The row after its result went through the stored document. -/
def SemanticRow.reload (row : SemanticRow) : Option SemanticRow :=
  match row.result with
  | none => some row
  | some result => (resultCodec.read (resultCodec.write result)).map fun result => { row with result := some result }

theorem GenerationRow.reload_eq (row : GenerationRow) : row.reload = some row := by
  unfold reload
  split
  · rfl
  · rename_i candidate hCandidate
    rw [candidateCodec.read_write, Option.map_some, ← hCandidate]

theorem SemanticRow.reload_eq (row : SemanticRow) : row.reload = some row := by
  unfold reload
  split
  · rfl
  · rename_i result hResult
    rw [resultCodec.read_write, Option.map_some, ← hResult]

theorem mapM_reload {α : Type} {reload : α → Option α} (h : ∀ row, reload row = some row) (rows : List α) :
    rows.mapM reload = some rows := by
  induction rows with
  | nil => rfl
  | cons row rest ih =>
      rw [List.mapM_cons, h, ih]
      rfl

namespace Store

/-- The Run as the next transaction finds it, after its documents were stored. -/
def reload (store : Store) : Option Store := do
  let generations ← store.generations.mapM GenerationRow.reload
  let semantics ← store.semantics.mapM SemanticRow.reload
  some { store with generations, semantics }

theorem reload_eq (store : Store) : store.reload = some store := by
  rw [reload, mapM_reload GenerationRow.reload_eq, mapM_reload SemanticRow.reload_eq]
  rfl

end Store

/-- An accepted judge call shows as a reviewable candidate of its slot. -/
theorem Book.Sound.review_ready {b : Book} (h : b.Sound) {slots : List SlotProgress}
    (hSlots : b.Slots slots) {row : SemanticRow} (hRow : row ∈ b.semantics)
    (hStatus : row.evidence.status = .succeeded) : ∃ slot ∈ slots, ∃ candidate ∈ slot.candidate,
      candidate.candidateId = row.candidateId ∧ candidate.reviewReady = true := by
  obtain ⟨source, hSource, hId, _⟩ := h.candidates.judged row hRow
  have hOutcome := h.candidates.outcome source hSource
  have hSucceeded : source.evidence.status = .succeeded := by
    by_contra hNot
    rw [(hOutcome.otherwise hNot).2] at hId
    cases hId
  obtain ⟨stored, hStored, hStoredId, _⟩ := hOutcome.succeeded hSucceeded
  rw [hId, Option.some.injEq] at hStoredId
  have hReviewed := h.candidates.reviewed source hSource stored hStored
  have hAccepted : stored.acceptedSemanticExecutionId = some row.executionId :=
    (hReviewed.accepted row.executionId).mpr ⟨row, hRow, hStoredId, hStatus, rfl⟩
  have hReady : stored.reviewReady = true := by
    rw [hReviewed.ready, hAccepted]
    rfl
  have hIndex := h.candidates.generationIndex source hSource
  have hPlanned : source.slot ∈ b.creation.slots := by
    rw [GenerationRow.slot, ← hIndex.2.2.1, ← hIndex.2.2.2.1]
    exact (h.record_reads hSource).planned
  obtain ⟨slot, hSlot, hSame⟩ := hSlots.exists_slot hPlanned
  have hProjects := hSlots.projects hSlot
  rw [hSame] at hProjects
  refine ⟨slot, hSlot, ?_⟩
  cases hCandidate : slot.candidate with
  | none =>
      rw [hProjects.missing hCandidate source hSource rfl] at hStored
      cases hStored
  | some candidate =>
      obtain ⟨other, hOther, hOtherSlot, kept, hKept, hKeptId, hKeptReady, _⟩ := hProjects.accepted candidate hCandidate
      have hLast := h.getLast_of_candidate hSource hStored
      rw [← hOtherSlot, h.getLast_of_candidate hOther hKept, Option.some.injEq] at hLast
      rw [hLast, hStored, Option.some.injEq] at hKept
      rw [← hKept] at hKeptId hKeptReady
      exact ⟨candidate, rfl, hKeptId.trans hStoredId.symm, hKeptReady.trans hReady⟩

namespace Store

variable {store next : Store} {owner : String} {completion : SemanticCompletion}

/-- The evidence that an accepted judge call was stored with. -/
structure Judges (store next : Store) (owner : String) (completion : SemanticCompletion)
    (accepted : SemanticAcceptance) : Prop where
  parsed : ∃ cp, store.readSemanticAcceptance cp owner completion = .ok accepted
  result : semanticTerminalValues completion accepted ∈ next.semantics
  candidate : ∃ row ∈ next.generations, row.candidateId = some completion.candidateId ∧
    row.candidate = some accepted.candidate

theorem judges_of_stored (h : store.Valid) {cp : ExecutionCheckpoint} {accepted : SemanticAcceptance} {stored : Store}
    (hAccept : store.readSemanticAcceptance cp owner completion = .ok accepted)
    (hStore : store.storeSemantic completion accepted = .ok stored)
    (hGenerations : next.generations = stored.generations) (hSemantics : next.semantics = stored.semantics) :
    store.Judges next owner completion accepted := by
  obtain ⟨source, hSource, hId, hGenerated, _, candidate, hCandidate, _, _, hKept⟩ := readSemanticAcceptance_ok h hAccept
  have hStored := storeSemantic_ok h hSource hGenerated hCandidate hKept hStore
  rw [hStored] at hGenerations hSemantics
  refine ⟨⟨cp, hAccept⟩, ?_, source.withCandidate source.executionId accepted.candidate, ?_, ?_, ?_⟩
  · rw [hSemantics]
    exact List.mem_append_right _ (List.mem_singleton_self _)
  · rw [hGenerations]
    exact List.mem_map_of_mem hSource
  · simpa using hId
  · exact GenerationRow.withCandidate_same _ _

theorem completeClaimedSemantic_judges (h : store.Valid) {claim : SlotClaim}
    (hOk : store.completeClaimedSemantic claim owner completion = .ok next) :
    ∃ accepted, store.Judges next owner completion accepted := by
  simp only [completeClaimedSemantic, bind_ok] at hOk
  obtain ⟨⟨version, current⟩, _, accepted, hAccept, stored, hStore, hComplete⟩ := hOk
  obtain ⟨_, _, hGenerations, hSemantics, _⟩ := completeClaim_ok hComplete
  exact ⟨accepted, judges_of_stored h hAccept hStore hGenerations hSemantics⟩

theorem completeSerialSemantic_judges (h : store.Valid) {expectedVersion : Nat}
    (hOk : store.completeSerialSemantic expectedVersion owner completion = .ok next) :
    ∃ accepted, store.Judges next owner completion accepted := by
  simp only [completeSerialSemantic, bind_ok, pure_ok] at hOk
  obtain ⟨⟨version, cp⟩, _, accepted, hAccept, stored, hStore, final, _, saved, hSave, rfl⟩ := hOk
  obtain ⟨_, rfl⟩ := saveCheckpoint_ok hSave
  exact ⟨accepted, judges_of_stored h hAccept hStore rfl rfl⟩

end Store

/-- The judge call that an operation reports, and by whom. -/
def Operation.judgement : Operation → Option (String × SemanticCompletion)
  | .completeClaimedSemantic _ owner completion => some (owner, completion)
  | .completeSerialSemantic _ owner completion => some (owner, completion)
  | _ => none

theorem Store.perform_judges {store next : Store} (h : store.Valid) {op : Operation} {owner : String}
    {completion : SemanticCompletion} (hJudgement : op.judgement = some (owner, completion))
    (hOp : store.perform op = .ok next) : ∃ accepted, store.Judges next owner completion accepted := by
  cases op with
  | completeClaimedSemantic claim owner completion =>
      cases hJudgement
      exact completeClaimedSemantic_judges h hOp
  | completeSerialSemantic expectedVersion owner completion =>
      cases hJudgement
      exact completeSerialSemantic_judges h hOp
  | _ => cases hJudgement

/-- Whatever judge output the parser accepts, for any candidate and obligations,
passes the reader's check after its documents were stored; and once a Run
accepted it, every later projection of the Run reads the stored rows without a
refusal and shows the candidate as reviewable. -/
theorem semantic_writer_reader_agree :
    (∀ (completion : SemanticCompletion) (contract : JudgeContract) (receipt : ProviderReceipt)
        (obligations : List AssertionReceipt) (result : SemanticResult) (candidate : Candidate),
      completion.status = .succeeded →
      parseSemanticOutput completion.normalizedOutput contract receipt completion.invocationId obligations =
        .ok result →
      candidate.semanticAssertions = some result.decisions →
      ∃ stored read, candidateCodec.read (candidateCodec.write candidate) = some stored ∧
        resultCodec.read (resultCodec.write result) = some read ∧
        checkSemanticResult stored completion (some read) = .ok ()) ∧
    ∀ (creation : Creation) (now : DateTime) (store next later : Store) (op : Operation) (owner : String)
        (completion : SemanticCompletion),
      Reaches (fun _ _ _ => True) creation now store → op.judgement = some (owner, completion) →
      completion.status = .succeeded → store.perform op = .ok next → Continues (fun _ => True) next later →
      (∃ accepted, store.Judges next owner completion accepted) ∧
      ∃ reloaded slots, later.reload = some reloaded ∧
        projectSlots reloaded.creation.slots reloaded.generations reloaded.book.settledDispatches reloaded.semantics
          reloaded.progress.resultUnknownResolutions reloaded.progress.semanticContractRecoveries
          reloaded.creation.policy = .ok slots ∧
        ∃ slot ∈ slots, ∃ candidate ∈ slot.candidate, candidate.candidateId = completion.candidateId ∧
          candidate.reviewReady = true := by
  constructor
  · intro completion contract receipt obligations result candidate hStatus hParse hDecisions
    exact ⟨candidate, result, candidateCodec.read_write candidate, resultCodec.read_write result,
      checkSemanticResult_of_parse hStatus hParse hDecisions⟩
  · intro creation now store next later op owner completion hReaches hJudgement hStatus hOp hLater
    have hCoherent := hReaches.coherent.1
    obtain ⟨accepted, hJudges⟩ := Store.perform_judges hCoherent.toValid hJudgement hOp
    have hNext := ((Store.perform_changes hCoherent hOp).coherent hCoherent).1
    obtain ⟨hKept, hCompletions⟩ := hLater.kept hNext
    have hRecorded : Completion.semantic completion ∈ next.book.completions :=
      Book.semantic_mem (b := next.book) hJudges.result
    obtain ⟨slots, hProject, hSlots⟩ := hKept.sound.projectSlots_ok
    refine ⟨⟨accepted, hJudges⟩, later, slots, later.reload_eq, hProject, ?_⟩
    rcases Book.mem_completions.mp (hCompletions _ hRecorded) with ⟨_, _, hSame⟩ | ⟨row, hRow, hSame⟩
    · cases hSame
    · obtain rfl := Completion.semantic.inj hSame
      have hIndex := hKept.sound.candidates.semanticIndex row hRow
      rw [hIndex.2.2.2.1]
      exact hKept.sound.review_ready hSlots hRow hStatus

/-- The first judge call of a serial Run. -/
theorem semantic_writer_reader_agree_pilot : ∃ now store next completion slots,
    Reaches (fun _ _ _ => True) (Pilot.creation .serialV1) now store ∧
    store.perform (.completeSerialSemantic store.version "worker" completion) = .ok next ∧
    completion.status = .succeeded ∧
    projectSlots next.creation.slots next.generations next.book.settledDispatches next.semantics
      next.progress.resultUnknownResolutions next.progress.semanticContractRecoveries next.creation.policy =
        .ok slots ∧
    ∃ slot ∈ slots, ∃ candidate ∈ slot.candidate, candidate.candidateId = completion.candidateId ∧
      candidate.reviewReady = true := by
  obtain ⟨now, store, hReaches, hCheck⟩ := exists_reaches (fun _ _ _ => True) (Pilot.creation .serialV1)
    (Pilot.start ++ [Pilot.prepare 1 "e1", Pilot.reserve 1, Pilot.explain 2 "c1", Pilot.prepare 3 "s1",
      Pilot.reserve 3])
    (fun store => (Pilot.judgedBy store (Pilot.clock 4) Pilot.integerVerdict).toOption.any
      fun completion : SemanticCompletion => (completion.status == .succeeded) &&
        (store.perform (.completeSerialSemantic store.version "worker" completion)).toOption.isSome)
    (by decide +kernel)
  obtain ⟨completion, _, hCheck⟩ := (Option.any_eq_true _ _).mp hCheck
  obtain ⟨hStatus, hAccepted⟩ := Bool.and_eq_true_iff.mp hCheck
  obtain ⟨next, hNext⟩ := Option.isSome_iff_exists.mp hAccepted
  have hOp := toOption_some.mp hNext
  obtain ⟨_, reloaded, slots, hReload, hProject, hReady⟩ := semantic_writer_reader_agree.2 _ now store next next
    (.completeSerialSemantic store.version "worker" completion) "worker" completion hReaches rfl
    (eq_of_beq hStatus) hOp .refl
  rw [Store.reload_eq, Option.some.injEq] at hReload
  subst hReload
  exact ⟨now, store, next, completion, slots, hReaches, hOp, eq_of_beq hStatus, hProject, hReady⟩

end QsAi
