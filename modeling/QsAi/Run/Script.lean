import QsAi.Run.Reachable

/-! Scripted Runs. A script lists operations with the clock reading under which
they are tried; an operation may depend on the store it meets, the way a worker
reads its claim before it reports a result. What a script computes is a Run. -/
namespace QsAi

open Guarded Keyed Numbered PyJson

/-- One entry of a script. -/
structure ScriptStep where
  now : DateTime
  choose : Store → Except Rejection Operation

section Drive

variable (allowed : DateTime → Store → Operation → Prop) [∀ now store op, Decidable (allowed now store op)]

/-- Perform the script; the clock must not go back and every operation must be
allowed and accepted. -/
def drive : DateTime → Store → List ScriptStep → Except Rejection (DateTime × Store)
  | before, store, [] => pure (before, store)
  | before, store, entry :: rest => do
      let op ← entry.choose store
      require (before ≤ entry.now ∧ allowed entry.now store op) (.invalid "Script leaves the allowed operations")
      let next ← store.perform op
      drive entry.now next rest

variable {allowed}

theorem drive_reaches {creation : Creation} {script : List ScriptStep} {before now : DateTime} {store next : Store}
    (hReaches : Reaches allowed creation before store) (h : drive allowed before store script = .ok (now, next)) :
    Reaches allowed creation now next := by
  induction script generalizing before store with
  | nil =>
      rw [drive, pure_ok, Prod.mk.injEq] at h
      obtain ⟨rfl, rfl⟩ := h
      exact hReaches
  | cons entry rest ih =>
      simp only [drive, bind_ok, require_ok, exists_const] at h
      obtain ⟨op, _, ⟨hClock, hAllowed⟩, middle, hOp, hRest⟩ := h
      exact ih (.step hReaches hClock hAllowed hOp) hRest

/-- A script that a decision procedure accepts is a Run with the property that
the procedure checked. -/
theorem exists_reaches (allowed : DateTime → Store → Operation → Prop)
    [∀ now store op, Decidable (allowed now store op)] (creation : Creation) (script : List ScriptStep)
    (check : Store → Bool)
    (h : (drive allowed creation.createdAt (createRun creation) script).toOption.any (fun result => check result.2) =
      true) : ∃ now store, Reaches allowed creation now store ∧ check store = true := by
  cases hRun : drive allowed creation.createdAt (createRun creation) script with
  | error refusal =>
      rw [hRun] at h
      cases h
  | ok result =>
      rw [hRun] at h
      exact ⟨result.1, result.2, drive_reaches (.create (le_refl _)) hRun, h⟩

end Drive

/-! A pilot Run with one assertion for each case, decided by the judge. -/

namespace Pilot

/-- The clock of the pilot, in seconds after nine. -/
def clock (seconds : Fin 60) : DateTime where
  year := 2026
  month := 1
  day := 1
  hour := 9
  minute := 0
  second := seconds
  microsecond := 0
  utcoffset := 0
  date := DateTime.newYear_date
  clock := ⟨by decide, by decide, seconds.isLt, by decide⟩
  zone := DateTime.utc_zone

def policy : ExecutionPolicy where
  generationCases := 7
  candidatesPerCase := 5
  preflightCases := 1
  generationPerSlot := 2
  generationPerRun := 70
  semanticPerCandidate := 2
  semanticPerRun := 70
  automaticSelectors := ∅

/-! The two reviewers. -/

theorem ann_valid : validId "ann" = true := by decide +kernel

theorem bob_valid : validId "bob" = true := by decide +kernel

def assertion (type evaluator : String) (status : AssertionStatus)
    (h : strip type ≠ "" ∧ strip evaluator ≠ "") : AssertionReceipt :=
  ⟨type, .case, 1, true, evaluator, status, "", h.1, h.2, by decide⟩

/-- The rejection case was rejected before the provider was called. -/
def runPreflight (evaluatedAt : DateTime) : PreflightEvidence where
  caseId := "preflight"
  status := .passed
  evaluatedAt
  rejectionReason := "unsupported"
  assertions :=
    [assertion "provider_call_count" "preflight" .passed (by decide +kernel),
      assertion "rejection_reason" "preflight" .passed (by decide +kernel)]
  identity := by decide +kernel
  terminal := by decide
  inventory := by decide
  passed := by decide +kernel

def preflight : PreflightEvidence := runPreflight (clock 0)

/-- The thresholds of the second gate policy. -/
def gateThresholds : QualityThresholds where
  generationCases := 7
  candidatesPerCase := 5
  reviewCount := 70
  minInfrastructureRate := .double (4413527634823086 / 2 ^ 52)
  minContractRate := .double (4278419646001971 / 2 ^ 52)
  minSemanticRate := .double (4413527634823086 / 2 ^ 52)
  minCasePasses := 4
  minOverallPasses := 32
  minimumScores := [.int 4, .int 3, .int 3, .int 3, .int 3]
  minimumAverages := [.double (9 / 2), .int 4, .int 4, .int 4, .int 4]
  counts := by decide
  rates := by decide +kernel
  scores := by decide +kernel

/-- Storage that keeps every double. -/
def encoding : ReviewEncoding where
  reviewFingerprint := fun _ => "sha256:0000000000000000000000000000000000000000000000000000000000000000"
  recordSize := fun record => 1024 + 256 * record.gateResult.reasons.length
  historySize := fun history => 4096 * history.length
  storedDouble := id
  stable := fun _ => rfl

def assets : FrozenAssets where
  generationProvider := "pilot"
  generationModel := "pilot"
  outputSchema := fun _ => true
  judge :=
    { provider := "pilot", model := "pilot", promptVersion := "v1"
      versioned := by decide +kernel }
  inventory := fun _ => some [⟨"no_unprovided_fact", .case, 1, true⟩]
  runPreflight := fun time => some (runPreflight time)
  gateVersion := "v2"
  thresholds := gateThresholds
  completionRule := false
  encoding := encoding

def creation (mode : ExecutionMode) : Creation where
  mode
  createdAt := clock 0
  requestedBy := "operator"
  releaseFingerprint := "release"
  generationCaseIds := ["a", "b", "c", "d", "e", "f", "g"]
  preflightCaseId := "preflight"
  policy := policy
  assets := assets
  frozen := by constructor <;> decide
  cases := by decide +kernel
  identities := by decide +kernel
  apart := by decide +kernel

/-- Start collecting after a passed preflight. -/
def start : List ScriptStep :=
  [⟨clock 0, fun _ => pure (.transitionRequested 1 .collecting "operator" "go" (clock 0))⟩,
    ⟨clock 0, fun _ => pure (.completePreflight 2 preflight)⟩]

/-- Claim the next ready slot and dispatch its call. -/
def dispatch (seconds : Fin 60) (id : String) (limit : Nat) : ScriptStep :=
  ⟨clock seconds, fun _ =>
    pure (.claimAndDispatch "worker" id id (clock seconds) (clock 59) limit (clock seconds))⟩

/-- Let the first claim expire. -/
def expire (seconds : Fin 60) : ScriptStep :=
  ⟨clock seconds, fun store => do
    let row ← demand store.claims.head? (.invalid "No claim")
    pure (.expireCandidate row.claim (clock seconds))⟩

/-- Authorize the replacement of an unknown execution. -/
def authorize (seconds : Fin 60) (id : String) (h : validId id = true) : ScriptStep :=
  ⟨clock seconds, fun store => pure (.acceptResolution store.version
    ⟨id, .authorizeReplacement, "operator", "retry", clock seconds, h, by decide +kernel, by decide +kernel⟩ true)⟩

/-- Claim and dispatch with a lease of five seconds. -/
def lease (seconds : Fin 55) (id : String) (limit : Nat) : ScriptStep :=
  ⟨clock ⟨seconds, by omega⟩, fun _ =>
    pure (.claimAndDispatch "worker" id (id ++ ":call") (clock ⟨seconds, by omega⟩)
    (clock ⟨seconds + 5, by omega⟩) limit (clock ⟨seconds, by omega⟩))⟩

/-- Prepare the next serial execution. -/
def prepare (seconds : Fin 60) (id : String) : ScriptStep :=
  ⟨clock seconds, fun store =>
    pure (.prepareExecution store.version "worker" id (id ++ ":call") (clock seconds) (clock 59))⟩

/-- An operator cancels. -/
def cancellation (seconds : Fin 60) : CancellationDecision :=
  ⟨"user:1", "stop", false, clock seconds, by decide +kernel, by decide +kernel, by decide +kernel⟩

def cancel (seconds : Fin 60) : ScriptStep :=
  ⟨clock seconds, fun store => pure (.cancel store.version (cancellation seconds) true (clock seconds))⟩

/-! Reported results. -/

/-- Dispatch the prepared serial call. -/
def reserve (seconds : Fin 60) : ScriptStep :=
  ⟨clock seconds, fun store => pure (.reserveDispatch store.version "worker" (clock seconds))⟩

def receipt (invocationId : String) (h : validId invocationId = true) : ProviderReceipt where
  invocationId
  requestId := "request"
  provider := "pilot"
  model := "pilot"
  inputTokens := none
  outputTokens := none
  latencyNs := 0
  identity := ⟨h, by decide +kernel⟩
  route := by decide +kernel
  usage := by decide
  latency := by decide

/-- The empty object, which the pilot accepts as an explanation. -/
def explanation : Output :=
  .ofString "\x7b\x7d" "44136fa355b3678a1146ad16f7e8649e94fb4fc21fe77e8310c060f61caaff8a"

/-- The bytes of several words in a row. -/
def spelled (words : List String) (sha256 : String) : Output where
  bytes := (String.join words).toUTF8.data.toList
  sha256
  document := (loads overwrite none (words.flatMap text)).toOption
  decoded := by
    have hText : text (String.join words) = words.flatMap text := by
      rw [text, String.toList_join, List.map_flatMap]
      rfl
    rw [← hText]
    exact (Output.ofString (String.join words) sha256).decoded

/-- The judge passes the one assertion and gives fours; the first one is spelled
as given. -/
def verdict (first sha256 : String) : Output :=
  spelled ["\x7b\"schema_version\":", "\"ai-explanation-", "semantic-evaluation-", "output/v1\",", "\"scores\":\x7b",
    "\"faithfulness\":", first, ",\"cross_dimension_", "quality\":4,", "\"suggestion_", "actionability\":4,",
    "\"audience_clarity\":4,", "\"concision\":4\x7d,", "\"rationale\":\"sound\",", "\"decisions\":[\x7b",
    "\"type\":\"no_", "unprovided_fact\",", "\"scope\":\"case\",", "\"ordinal\":1,", "\"status\":\"passed\",",
    "\"detail\":\"none\"\x7d]\x7d"] sha256

def integerVerdict : Output := verdict "4" "3301c4a84dc3b3f10559a2dff6f3deb0c9cc0b9f38386fa5adc12fd1c38ff989"

def decimalVerdict : Output := verdict "4.0" "53d5682ca7e256f1081892919bf01fdd0199571a5d8895a426a340eb47d6cdf1"

/-- The explanation as the result of a dispatched call. -/
def generatedFields (cp : CheckpointFields) (time : DateTime) (h : validId cp.invocationId = true) :
    GenerationFields where
  executionId := cp.executionId
  caseId := cp.caseId
  slotOrdinal := cp.slotOrdinal
  executionOrdinal := cp.executionOrdinal
  invocationId := cp.invocationId
  status := .succeeded
  startedAt := time
  finishedAt := time
  providerCallCount := 1
  receipt := some (receipt cp.invocationId h)
  rawOutput := explanation
  normalizedOutput := explanation
  normalizedFingerprint := explanation.fingerprint

/-- A verdict as the result of a dispatched judge call. -/
def judgedFields (cp : CheckpointFields) (time : DateTime) (output : Output) (h : validId cp.invocationId = true) :
    SemanticFields where
  executionId := cp.executionId
  candidateId := cp.candidateId
  candidateOutputFingerprint := explanation.fingerprint
  executionOrdinal := cp.executionOrdinal
  invocationId := cp.invocationId
  status := .succeeded
  startedAt := time
  finishedAt := time
  providerCallCount := 1
  receipt := some (receipt cp.invocationId h)
  rawOutput := output
  normalizedOutput := output

/-- The identity of a live call; its own check already passed. -/
def identified (store : Store) : Except Rejection { cp : ExecutionCheckpoint // validId cp.invocationId = true } := do
  let cp ← demand store.live.head? (.invalid "No call")
  if h : validId cp.invocationId = true then pure ⟨cp, h⟩ else throw (.invalid "No call")

theorem identified_valid (cp : { cp : ExecutionCheckpoint // validId cp.invocationId = true }) :
    validId cp.1.invocationId = true := cp.2

/-- The explanation that the live call of a Run returned. -/
def explained (store : Store) (time : DateTime) : Except Rejection GenerationCompletion := do
  let cp ← identified store
  GenerationCompletion.make (generatedFields cp.1.toCheckpointFields time (identified_valid cp))

/-- The verdict that the live call of a Run returned. -/
def judgedBy (store : Store) (time : DateTime) (output : Output) : Except Rejection SemanticCompletion := do
  let cp ← identified store
  SemanticCompletion.make (judgedFields cp.1.toCheckpointFields time output (identified_valid cp))

/-- Report the explanation of the serial call under a candidate name. -/
def explain (seconds : Fin 60) (candidateId : String) : ScriptStep :=
  ⟨clock seconds, fun store => do
    let completion ← explained store (clock seconds)
    pure (.completeSerialGeneration store.version "worker" completion candidateId
      [assertion "no_unprovided_fact" "suite" .pendingSemantic (by decide +kernel)])⟩

/-- Report the verdict of the serial judge call. -/
def judge (seconds : Fin 60) (output : Output) : ScriptStep :=
  ⟨clock seconds, fun store => do
    let completion ← judgedBy store (clock seconds) output
    pure (.completeSerialSemantic store.version "worker" completion)⟩

end Pilot

end QsAi
