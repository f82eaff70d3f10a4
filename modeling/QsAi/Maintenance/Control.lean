import QsAi.Maintenance.Schemas

/-! The commands of a cutover. A command reads the journal, works out from the
layouts what an interrupted predecessor did, and saves the journal around each
change that cannot be repeated. -/
namespace QsAi

namespace SchemaRefactor

/-- The server and the conversion contract that a command meets. -/
structure Connection where
  serverUuid : String
  contractSha256 : String

def copyDeadlineSeconds : Nat := 25 * 60
def retentionSeconds : Nat := 30 * 24 * 60 * 60

variable {Rows Manifest : Type} (deployment : Deployment Rows Manifest)

def binding (connection : Connection) (state : Journal Manifest) : Maintenance Rows Manifest Unit := do
  moment deployment
  refuseUnless (connection.serverUuid = state.serverUuid) (.value "Journal belongs to another database server")
  refuseUnless (connection.contractSha256 = state.contractSha256)
    (.value "Versioned conversion contract changed after planning")

/-- The time that has passed since all writers were stopped is bounded. -/
def deadline (stoppedAt : Nat) : Maintenance Rows Manifest Unit := do
  let current ← now deployment
  refuseUnless (stoppedAt ≤ current ∧ current - stoppedAt < copyDeadlineSeconds)
    (.timeout "Maintenance exchange deadline exceeded")

def maintenanceName (value : String) : Bool :=
  ["ai_refactor_", "ai_rollback_", "ai_backup_", "ai_failed_"].any fun start => start.toList.isPrefixOf value.toList

def archiveName (value : String) : Bool :=
  ["ai_backup_", "ai_failed_"].any fun start => start.toList.isPrefixOf value.toList

def owned (state : Journal Manifest) (schema : String) : Maintenance Rows Manifest Unit := do
  refuseUnless (identifier schema = true) (.value "Invalid schema/table identifier")
  refuseUnless (schema ≠ state.source ∧ schema ∈ state.ownedSchemas)
    (.value "Destination is not owned by this maintenance journal")
  refuseUnless (maintenanceName schema = true) (.value "Destination is not an isolated maintenance schema")

def createSchema (destination source : String) : Maintenance Rows Manifest Unit := do
  let schema ← contents deployment source (.value "Unknown source")
  define deployment (.create destination) fun db => db.set destination (some ⟨schema.options, [], 0, 0, 0⟩)

/-- The archive exists and holds nothing. -/
def emptyArchive (state : Journal Manifest) (schema : String) : Maintenance Rows Manifest Unit := do
  owned state schema
  let found ← existsSchema deployment schema
  if found = true then do
    let names ← tablesOf deployment schema
    refuseUnless (names = []) (.value "Owned archive contains unknown data or tables")
    let archive ← contents deployment schema (.value "Owned archive has unexpected schema options")
    let source ← contents deployment state.source (.value "Owned archive has unexpected schema options")
    refuseUnless (archive.options = source.options) (.value "Owned archive has unexpected schema options")
  else createSchema deployment schema state.source

/-- Each step of a migration is durable. -/
def alterAll (target : String) : List Schema → Maintenance Rows Manifest Unit
  | [] => pure ()
  | schema :: rest => do
      define deployment (.alter target) fun db => db.set target (some schema)
      alterAll target rest

/-- An existing destination is complete and pristine, another one is created. -/
def openIsolated (target source : String) : Maintenance Rows Manifest Unit := do
  let found ← existsSchema deployment target
  if found = true then do
    let head ← headOfSchema deployment target
    requireSchema deployment head target
    let clean ← pristineSchema deployment target head
    refuseUnless (clean = true) (.value "Owned destination contains pre-existing business data")
  else createSchema deployment target source

def upgradeIsolated (target : String) (targetHead : Head) (source : String) : Maintenance Rows Manifest Unit := do
  openIsolated deployment target source
  let schema ← contents deployment target (.value "Unknown destination")
  alterAll deployment target (deployment.upgrade targetHead schema)
  requireSchema deployment targetHead target

/-- Drop only this journal's empty, known tables of an interrupted preparation. -/
def discardPristineOwned (state : Journal Manifest) (target : String) : Maintenance Rows Manifest Unit := do
  owned state target
  let source ← contents deployment state.source (.value "Owned destination has unexpected schema options")
  let schema ← contents deployment target (.value "Owned destination contains unknown database objects")
  refuseUnless (deployment.discardable source.options schema = true)
    (.value "Owned destination contains unknown tables; recreation refused")
  define deployment (.drop target) fun db => db.set target none

/-- An existing destination is used again when it is complete, else dropped. -/
def clearIsolated (state : Journal Manifest) (target : String) (head : Head) : Maintenance Rows Manifest Unit := do
  let found ← existsSchema deployment target
  if found = true then do
    let conforms ← conformsSchema deployment head target
    if conforms = true then do
      let clean ← pristineSchema deployment target head
      refuseUnless (clean = true) (.value "Owned destination contains pre-existing business data")
    else discardPristineOwned deployment state target
  else pure ()

def resumeIsolated (state : Journal Manifest) (target : String) (head : Head) (source : String) :
    Maintenance Rows Manifest Unit := do
  owned state target
  clearIsolated deployment state target head
  upgradeIsolated deployment target head source

/-- The first preparation claims its schemas. -/
def claim (state : Journal Manifest) : Maintenance Rows Manifest (Journal Manifest) :=
  if state.phase = .planned then do
    let target ← existsSchema deployment state.target
    let archive ← existsSchema deployment state.archive
    refuseUnless (target = false ∧ archive = false) (.value "Maintenance destinations already exist")
    let state := { state with ownedSchemas := [state.target, state.archive], phase := Phase.preparePending }
    save deployment state
    pure state
  else pure state

def prepare (connection : Connection) (state : Journal Manifest) : Maintenance Rows Manifest (Journal Manifest) := do
  binding deployment connection state
  refuseUnless (state.phase = .planned ∨ state.phase = .preparePending) (.value "Prepare requires a planned journal")
  requireSchema deployment state.sourceHead state.source
  let state ← claim deployment state
  owned state state.target
  resumeIsolated deployment state state.target state.targetHead state.source
  emptyArchive deployment state state.archive
  pure { state with phase := Phase.prepared }

/-- A retry keeps the time at which the writers were first stopped. -/
def sameStop (original : Option Nat) (supplied : Nat) : Maintenance Rows Manifest Nat := do
  refuseUnless (original.getD supplied = supplied) (.value "Retry must retain the original stopped-at deadline")
  pure (original.getD supplied)

/-! Copying. -/

/-- The counters of the old tables that have one. -/
def counterOf (name : String) (head : Head) (tables : List Table) : Option Nat :=
  (tables.find? (·.name == physical name head)).bind (·.counter)

def setCounter (name : String) (value : Nat) (tables : List Table) : List Table :=
  tables.map fun table => if table.name = name then { table with counter := some value } else table

def alignCounter (source target : String) (sourceHead targetHead : Head) (name : String) :
    Maintenance Rows Manifest Unit := do
  let current ← contents deployment source (.value "Source admission-lock auto-increment definition has drifted")
  let incoming ← contents deployment target (.value "Source admission-lock auto-increment definition has drifted")
  let value ← demand (counterOf name sourceHead current.tables)
    (.value "Source admission-lock auto-increment definition has drifted")
  if counterOf name targetHead incoming.tables = some value then pure ()
  else define deployment (.alter target) fun db =>
    db.set target (some { incoming with tables := setCounter (physical name targetHead) value incoming.tables })

def alignCounters (source target : String) (sourceHead targetHead : Head) : List String → Maintenance Rows Manifest Unit
  | [] => pure ()
  | name :: rest => do
      alignCounter deployment source target sourceHead targetHead name
      alignCounters source target sourceHead targetHead rest

/-- Every table of the target is empty, but for the seeds. -/
def emptyTarget (head : Head) (tables : List Table) : Bool :=
  tables.all fun table =>
    !(legacyTables.map (physical · head)).contains table.name || table.rows.isEmpty ||
      (table.name == physical observationTable head && seedSet table.rows)

/-- The rows of the target after the projection of every old table. -/
def fill (rows : String → List Row) (tables : List Table) : List Table :=
  tables.map fun table => if table.name = versionTable then table else { table with rows := rows table.name }

def copyData (source target : String) (sourceHead targetHead : Head) : Maintenance Rows Manifest Unit := do
  refuseUnless (source ≠ target ∧ sourceHead ≠ targetHead)
    (.value "Conversion requires separate schemas and different layouts")
  let current ← contents deployment source (.value "Orphan source evidence prevents migration")
  refuseUnless (deployment.precheck sourceHead current.tables = true) (.value "Orphan source evidence prevents migration")
  let incoming ← contents deployment target (.value "Target contains unexpected pre-existing data")
  refuseUnless (emptyTarget targetHead incoming.tables = true) (.value "Target contains unexpected pre-existing data")
  stage deployment target { incoming with tables := fill (deployment.projected sourceHead current.tables) incoming.tables }
  alignCounters deployment source target sourceHead targetHead autoIncrementTables

variable [DecidableEq Manifest]

/-- Both schemas have the same evidence, with or without the counters. -/
def verify (source target : String) (sourceHead targetHead : Head) (counters : Bool) : Maintenance Rows Manifest Manifest := do
  let before ← manifest deployment source sourceHead
  let after ← manifest deployment target targetHead
  refuseUnless ((if counters then before else deployment.rowsOnly before) =
    (if counters then after else deployment.rowsOnly after)) (.value "Data projection mismatch: ")
  pure before

/-- The first copy freezes the evidence of the source, a later one compares. -/
def freeze (state : Journal Manifest) (before : Manifest) (stoppedAt : Nat) : Maintenance Rows Manifest (Journal Manifest) :=
  if state.phase = .prepared then do
    let state := { state with sourceManifest := some before, stoppedAt := some stoppedAt, phase := Phase.copyPending }
    save deployment state
    pure state
  else do
    refuseUnless (state.sourceManifest = some before) (.value "Frozen source changed during interrupted copy")
    pure state

/-- A target with rows is compared and aligned, a pristine one is filled. -/
def fillTarget (state : Journal Manifest) : Maintenance Rows Manifest Unit := do
  let clean ← pristineSchema deployment state.target state.targetHead
  if clean = true then copyData deployment state.source state.target state.sourceHead state.targetHead
  else do
    let _ ← verify deployment state.source state.target state.sourceHead state.targetHead false
    alignCounters deployment state.source state.target state.sourceHead state.targetHead autoIncrementTables
    let _ ← verify deployment state.source state.target state.sourceHead state.targetHead true
    pure ()

def copy (connection : Connection) (state : Journal Manifest) (stopped : Bool) (stoppedAt : Nat) :
    Maintenance Rows Manifest (Journal Manifest) := do
  binding deployment connection state
  refuseUnless (state.phase = .prepared ∨ state.phase = .copyPending ∨ state.phase = .copied)
    (.value "Copy requires an owned prepared target")
  let stoppedAt ← sameStop state.stoppedAt stoppedAt
  deadline deployment stoppedAt
  fenced deployment stopped
  requireSchema deployment state.sourceHead state.source
  requireSchema deployment state.targetHead state.target
  let before ← manifest deployment state.source state.sourceHead
  let state ← freeze deployment state before stoppedAt
  fillTarget deployment state
  deadline deployment stoppedAt
  pure { state with phase := Phase.copied }

def verified (connection : Connection) (state : Journal Manifest) (stopped : Bool) :
    Maintenance Rows Manifest (Journal Manifest) := do
  binding deployment connection state
  refuseUnless (state.phase = .copied ∨ state.phase = .verified ∨ state.phase = .switchPending)
    (.value "Verify requires a completed copy")
  let stoppedAt ← demand state.stoppedAt .interrupted
  deadline deployment stoppedAt
  fenced deployment stopped
  requireSchema deployment state.sourceHead state.source
  requireSchema deployment state.targetHead state.target
  let result ← verify deployment state.source state.target state.sourceHead state.targetHead true
  refuseUnless (state.sourceManifest = some result) (.value "Frozen source changed after copy")
  deadline deployment stoppedAt
  pure { state with phase := Phase.verified }

/-! The exchange. -/

/-- Every table of the source goes to the archive, every table of the target to
the source, in one statement. -/
def exchangeTables (source target archive : String) (db : Database) : Database :=
  match db source, db target, db archive with
  | some old, some new, some kept =>
      ((db.set archive (some { kept with tables := old.tables })).set source (some { old with tables := new.tables })).set target
        (some { new with tables := [] })
  | _, _, _ => db

def exchange (source target archive : String) : Maintenance Rows Manifest Unit := do
  let kept ← tablesOf deployment archive
  refuseUnless (kept = []) (.value "Archive must be empty before exchange")
  let old ← tablesOf deployment source
  let new ← tablesOf deployment target
  refuseUnless (old ≠ [] ∧ new ≠ []) (.value "Exchange cannot use empty source/target")
  let _ ← contents deployment archive .interrupted
  define deployment (.exchange source target archive) (exchangeTables source target archive)

def exchangeBeforeDeadline (source target archive : String) (stoppedAt : Nat) : Maintenance Rows Manifest Unit := do
  deadline deployment stoppedAt
  deadline deployment stoppedAt
  exchange deployment source target archive

/-- Whether the exchange of an interrupted switch happened. -/
def exchanged (state : Journal Manifest) : Maintenance Rows Manifest Bool := do
  let names ← tablesOf deployment state.source
  refuseUnless (versionTable ∈ names) (.value "Source has an unrecognized interrupted layout")
  let head ← headOfSchema deployment state.source
  if head = state.targetHead then do
    requireSchema deployment state.targetHead state.source
    requireSchema deployment state.sourceHead state.archive
    let staging ← tablesOf deployment state.target
    refuseUnless (staging = []) (.value "Unknown exchange outcome: staging is not empty")
    pure true
  else do
    refuseUnless (head = state.sourceHead) (.value "Source has an unrecognized interrupted layout")
    pure false

/-- The archive is on record once. -/
def retained (state : Journal Manifest) (schema : String) (head : Head) (evidence : Manifest) (since : Nat) : Journal Manifest :=
  if state.retainedArchives.any (·.schema == schema) then state
  else { state with retainedArchives := state.retainedArchives ++ [⟨schema, head, evidence, since, false, false, none⟩] }

/-- The exchange of a switch, unless it happened before. -/
def switchTables (connection : Connection) (state : Journal Manifest) (stopped done : Bool) :
    Maintenance Rows Manifest (Journal Manifest) :=
  if done = true then pure state
  else do
    let state ← verified deployment connection state stopped
    let state := { state with phase := Phase.switchPending }
    save deployment state
    let stoppedAt ← demand state.stoppedAt .interrupted
    exchangeBeforeDeadline deployment state.source state.target state.archive stoppedAt
    pure state

def completeSwitch (state : Journal Manifest) : Maintenance Rows Manifest (Journal Manifest) := do
  requireSchema deployment state.targetHead state.source
  requireSchema deployment state.sourceHead state.archive
  let staging ← tablesOf deployment state.target
  refuseUnless (staging = []) (.value "Post-exchange staging is not empty")
  let source ← manifest deployment state.source state.targetHead
  let archive ← manifest deployment state.archive state.sourceHead
  refuseUnless (state.sourceManifest = some source ∧ state.sourceManifest = some archive)
    (.value "Post-exchange data differs; keep all writers stopped")
  let current ← now deployment
  let switchedAt := state.switchedAt.getD current
  let state := retained { state with phase := Phase.switched, switchedAt := some switchedAt, runtimeMayHaveWritten := true }
    state.archive state.sourceHead source switchedAt
  save deployment state
  pure state

def switch (connection : Connection) (state : Journal Manifest) (stopped : Bool) :
    Maintenance Rows Manifest (Journal Manifest) := do
  binding deployment connection state
  refuseUnless (state.phase = .verified ∨ state.phase = .switchPending ∨ state.phase = .switched)
    (.value "Switch requires verified data")
  fenced deployment stopped
  let done ← exchanged deployment state
  if state.phase = .switched then do
    refuseUnless (done = true) (.value "Completed exchange no longer matches the journal")
    pure state
  else do
    let state ← switchTables deployment connection state stopped done
    completeSwitch deployment state

/-! The rollback. -/

def rollbackComplete (state : Journal Manifest) (plan : Rollback Manifest) : Maintenance Rows Manifest Bool := do
  let head ← headOfSchema deployment state.source
  if head = state.targetHead then pure false
  else do
    refuseUnless (head = state.sourceHead) (.value "Unknown rollback exchange outcome")
    requireSchema deployment state.sourceHead state.source
    requireSchema deployment state.targetHead plan.archive
    let staging ← tablesOf deployment plan.target
    refuseUnless (staging = []) (.value "Unknown rollback exchange outcome: staging is not empty")
    let source ← manifest deployment state.source state.sourceHead
    let archive ← manifest deployment plan.archive state.targetHead
    refuseUnless (source = plan.manifest ∧ archive = plan.manifest)
      (.value "Rollback post-exchange data mismatch; keep writers stopped")
    pure true

/-- A fast rollback restores the archive, so nothing may have changed. -/
def checkFast (state : Journal Manifest) (current : Manifest) (runtimeNeverStarted : Bool) :
    Maintenance Rows Manifest Unit :=
  if runtimeNeverStarted = true then do
    refuseUnless (state.sourceManifest = some current) (.value "Fast rollback would discard new data")
    let archive ← manifest deployment state.archive state.sourceHead
    refuseUnless (archive = current) (.value "Fast rollback would discard new data")
  else pure ()

/-- The first attempt plans the rollback and saves the plan. -/
def planRollback (state : Journal Manifest) (stoppedAt : Nat) (runtimeNeverStarted : Bool) :
    Maintenance Rows Manifest (Journal Manifest) := do
  deadline deployment stoppedAt
  let done ← exchanged deployment state
  refuseUnless (done = true) (.value "Probe exchange outcome before attempting rollback")
  let current ← manifest deployment state.source state.targetHead
  checkFast deployment state current runtimeNeverStarted
  let suffix := deployment.suffix state.source state.createdAt
  let destination := if runtimeNeverStarted then state.archive else "ai_rollback_" ++ suffix
  let failed := "ai_failed_" ++ suffix
  let failedExists ← existsSchema deployment failed
  let destinationExists ← existsSchema deployment destination
  refuseUnless (failedExists = false ∧ (runtimeNeverStarted = true ∨ destinationExists = false))
    (.value "Rollback destinations already exist")
  let time ← now deployment
  let evidence ← demand state.sourceManifest .interrupted
  let switchedAt := state.switchedAt.getD time
  let mode := if runtimeNeverStarted then RollbackMode.fast else RollbackMode.reverse
  let state := retained { state with
    phase := Phase.rollbackPending
    rollback := some ⟨destination, failed, current, stoppedAt, mode⟩
    ownedSchemas := state.ownedSchemas ++ [destination, failed].filter fun name => !state.ownedSchemas.contains name
    switchedAt := some switchedAt } state.archive state.sourceHead evidence switchedAt
  save deployment state
  pure state

/-- A reverse rollback converts the current rows into a schema of its own. -/
def prepareReverse (state : Journal Manifest) (plan : Rollback Manifest) : Maintenance Rows Manifest Unit := do
  let conforms ← conformsSchema deployment state.sourceHead plan.target
  if conforms = true then pure ()
  else resumeIsolated deployment state plan.target state.sourceHead state.source

def fillReverse (state : Journal Manifest) (plan : Rollback Manifest) : Maintenance Rows Manifest Unit := do
  let clean ← pristineSchema deployment plan.target state.sourceHead
  if clean = true then copyData deployment state.source plan.target state.targetHead state.sourceHead else pure ()

def reverseTables (state : Journal Manifest) (plan : Rollback Manifest) : Maintenance Rows Manifest Manifest := do
  prepareReverse deployment state plan
  fillReverse deployment state plan
  let _ ← verify deployment state.source plan.target state.targetHead state.sourceHead false
  alignCounters deployment state.source plan.target state.targetHead state.sourceHead autoIncrementTables
  verify deployment state.source plan.target state.targetHead state.sourceHead true

def rollbackSource (state : Journal Manifest) (plan : Rollback Manifest) : Maintenance Rows Manifest Manifest :=
  match plan.mode with
  | .reverse => reverseTables deployment state plan
  | .fast => verify deployment state.source plan.target state.targetHead state.sourceHead true

/-- The exchange of a rollback, unless it happened before. -/
def rollbackTables (state : Journal Manifest) (plan : Rollback Manifest) (stopped : Bool) (stoppedAt : Nat) (done : Bool) :
    Maintenance Rows Manifest Unit :=
  if done = true then pure ()
  else do
    let stoppedAt ← sameStop (some plan.stoppedAt) stoppedAt
    deadline deployment stoppedAt
    let current ← manifest deployment state.source state.targetHead
    refuseUnless (current = plan.manifest) (.value "Frozen active data changed during interrupted rollback")
    owned state plan.target
    emptyArchive deployment state plan.archive
    let result ← rollbackSource deployment state plan
    refuseUnless (result = plan.manifest) (.value "Rollback source or destination changed")
    deadline deployment stoppedAt
    fenced deployment stopped
    exchangeBeforeDeadline deployment state.source plan.target plan.archive stoppedAt
    let complete ← rollbackComplete deployment state plan
    refuseUnless (complete = true) (.value "Rollback exchange did not complete")

/-- What is recorded of a completed rollback. -/
def completeRollback (state : Journal Manifest) (plan : Rollback Manifest) : Maintenance Rows Manifest (Journal Manifest) := do
  let current ← now deployment
  let rolledBackAt := state.rolledBackAt.getD current
  let archives := match plan.mode with
    | .fast => state.retainedArchives.map fun record =>
        if record.schema = state.archive then { record with emptyAfterRestore := true } else record
    | .reverse => state.retainedArchives
  let state := retained { state with
    phase := Phase.rolledBack
    rolledBackAt := some rolledBackAt
    retainedArchives := archives } plan.archive state.targetHead plan.manifest rolledBackAt
  let state := { state with runtimeMayHaveWritten := true }
  save deployment state
  pure state

/-- The plan of a rollback, made now or recorded before. -/
def rollbackState (state : Journal Manifest) (stoppedAt : Nat) (runtimeNeverStarted : Bool) :
    Maintenance Rows Manifest (Journal Manifest) :=
  if state.phase = .rollbackPending then pure state
  else planRollback deployment state stoppedAt runtimeNeverStarted

def rollback (connection : Connection) (state : Journal Manifest) (stopped : Bool) (stoppedAt : Nat)
    (runtimeNeverStarted : Bool) : Maintenance Rows Manifest (Journal Manifest) := do
  binding deployment connection state
  refuseUnless (state.phase = .switched ∨ state.phase = .switchPending ∨ state.phase = .rollbackPending ∨
    state.phase = .rolledBack) (.value "Rollback requires a completed exchange")
  fenced deployment stopped
  if state.phase = .rolledBack then do
    requireSchema deployment state.sourceHead state.source
    pure state
  else do
    let state ← rollbackState deployment state stoppedAt runtimeNeverStarted
    let plan ← demand state.rollback .interrupted
    let done ← rollbackComplete deployment state plan
    rollbackTables deployment state plan stopped stoppedAt done
    completeRollback deployment state plan

/-! The removal of archives. -/

/-- An archive can go: it is past its retention and holds what is on record. -/
def checkArchive (state : Journal Manifest) (kept : Retained Manifest) : Maintenance Rows Manifest Unit := do
  owned state kept.schema
  refuseUnless (archiveName kept.schema = true) (.value "Cleanup only accepts recorded isolated archives")
  let current ← now deployment
  refuseUnless (kept.retainedSince + retentionSeconds ≤ current)
    (.value "Archive has not reached its 30-day retention deadline")
  let found ← existsSchema deployment kept.schema
  if found = false then
    refuseUnless (kept.dropPending = true ∨ kept.deletedAt.isSome = true) (.value "Recorded archive disappeared before cleanup")
  else if kept.emptyAfterRestore = true then do
    let names ← tablesOf deployment kept.schema
    refuseUnless (names = []) (.value "Restored archive contains unknown data")
  else do
    requireSchema deployment kept.head kept.schema
    let evidence ← manifest deployment kept.schema kept.head
    refuseUnless (evidence = kept.manifest) (.value "Archive changed since cutover; cleanup refused")

def checkArchives (state : Journal Manifest) : List (Retained Manifest) → Maintenance Rows Manifest Unit
  | [] => pure ()
  | kept :: rest => do
      checkArchive deployment state kept
      checkArchives state rest

/-- Drop an archive that is still there. -/
def dropArchive (state : Journal Manifest) (done : List (Retained Manifest)) (kept : Retained Manifest)
    (rest : List (Retained Manifest)) : Maintenance Rows Manifest (Retained Manifest) := do
  let found ← existsSchema deployment kept.schema
  if found = true then do
    let kept := { kept with dropPending := true }
    save deployment { state with retainedArchives := done ++ kept :: rest }
    define deployment (.drop kept.schema) fun db => db.set kept.schema none
    pure kept
  else pure kept

/-- Drop the archives one by one, with the journal saved around each of them. -/
def dropArchives (state : Journal Manifest) :
    List (Retained Manifest) → List (Retained Manifest) → Maintenance Rows Manifest (List (Retained Manifest))
  | done, [] => pure done
  | done, kept :: rest => do
      let kept ← dropArchive deployment state done kept rest
      let current ← now deployment
      let kept := { kept with deletedAt := some (kept.deletedAt.getD current) }
      save deployment { state with retainedArchives := done ++ kept :: rest }
      dropArchives state (done ++ [kept]) rest

def cleanup (connection : Connection) (state : Journal Manifest) : Maintenance Rows Manifest (Journal Manifest) := do
  binding deployment connection state
  refuseUnless (state.phase = .switched ∨ state.phase = .rolledBack ∨ state.phase = .cleanupPending ∨
    state.phase = .cleaned) (.value "Cleanup requires a completed cutover")
  refuseUnless (state.retainedArchives.isEmpty = false) (.value "Cleanup requires recorded archive retention facts")
  checkArchives deployment state state.retainedArchives
  let state := { state with phase := Phase.cleanupPending }
  save deployment state
  let archives ← dropArchives deployment state [] state.retainedArchives
  let state := { state with phase := Phase.cleaned, retainedArchives := archives }
  save deployment state
  pure state

/-! The commands of an operator. -/

inductive Command
  | prepare
  | copy (writersStopped : Bool) (stoppedAt : Nat)
  | verify (writersStopped : Bool)
  | switch (writersStopped : Bool)
  | rollback (writersStopped : Bool) (stoppedAt : Nat) (runtimeNeverStarted : Bool)
  | cleanup

def runCommand (connection : Connection) (state : Journal Manifest) : Command → Maintenance Rows Manifest (Journal Manifest)
  | .prepare => prepare deployment connection state
  | .copy writersStopped stoppedAt => copy deployment connection state writersStopped stoppedAt
  | .verify writersStopped => verified deployment connection state writersStopped
  | .switch writersStopped => switch deployment connection state writersStopped
  | .rollback writersStopped stoppedAt runtimeNeverStarted =>
      rollback deployment connection state writersStopped stoppedAt runtimeNeverStarted
  | .cleanup => cleanup deployment connection state

/-- A command, its commit, and the journal that it leaves. -/
def executeCommand (connection : Connection) (state : Journal Manifest) (command : Command) :
    Maintenance Rows Manifest Unit := do
  let state ← runCommand deployment connection state command
  commit deployment
  save deployment state

/-- The journal of a new cutover. -/
def plan (connection : Connection) (source target archive createdAt : String) (inherited : Option (Journal Manifest)) :
    Maintenance Rows Manifest (Journal Manifest) := do
  refuseUnless (identifier source = true ∧ identifier target = true ∧ identifier archive = true)
    (.value "Invalid schema/table identifier")
  refuseUnless (source ≠ target ∧ source ≠ archive ∧ target ≠ archive) (.value "Source, target and archive must be distinct")
  refuseUnless ((["ai_refactor_", "ai_rollback_"].any fun start => start.toList.isPrefixOf target.toList) = true ∧
    archiveName archive = true) (.value "Targets and archives require isolated maintenance names")
  let head ← headOfSchema deployment source
  refuseUnless (head = .new → ∃ original ∈ inherited, original.serverUuid = connection.serverUuid ∧
      original.contractSha256 = connection.contractSha256 ∧ original.source = source ∧ original.sourceHead = .old ∧
      original.targetHead = .new ∧ (original.phase = .switched ∨ original.phase = .cleaned))
    (.value "Reverse plan must inherit this source's completed forward journal")
  refuseUnless (head ≠ .new → inherited.isNone = true) (.value "Only a reverse plan may inherit a forward journal")
  requireSchema deployment head source
  refuseUnless (head = .old ∨ head = .new) (.value "Intermediate storage cannot be a live source")
  let targetExists ← existsSchema deployment target
  let archiveExists ← existsSchema deployment archive
  refuseUnless (targetExists = false ∧ archiveExists = false) (.value "Maintenance destinations already exist")
  pure
    { phase := .planned, source, target, archive, sourceHead := head, targetHead := if head = .old then .new else .old
      serverUuid := connection.serverUuid, createdAt, contractSha256 := connection.contractSha256, ownedSchemas := []
      sourceManifest := none, stoppedAt := none, switchedAt := none, rolledBackAt := none, runtimeMayHaveWritten := false
      rollback := none, retainedArchives := [] }

/-- The planning of a cutover, its commit, and the first journal. -/
def executePlan (connection : Connection) (source target archive createdAt : String) (inherited : Option (Journal Manifest)) :
    Maintenance Rows Manifest Unit := do
  let state ← plan deployment connection source target archive createdAt inherited
  commit deployment
  save deployment state

/-! Runs. -/

/-- A deployment before the maintenance, whose application wrote what its schema holds. -/
def World.initial (database : Database) (latest : Rows) (clock : Nat) : World Rows Manifest where
  durable := database
  view := database
  journal := none
  latest := latest
  clock := clock
  fenced := false
  schedule := []
  history := []

/-- What happens to the deployment: the application writes, or an operator
gives a command, which can be interrupted anywhere. -/
inductive Event
  | write (tables : List Table)
  | command (connection : Connection) (command : Command) (schedule : List Moment)

/-- The connection is closed and what it did not commit is gone. -/
def World.close (world : World Rows Manifest) : World Rows Manifest :=
  { world with view := world.durable, fenced := false, schedule := [] }

def World.finish (result : EStateM.Result Refusal (World Rows Manifest) Unit) : World Rows Manifest :=
  match result with
  | .ok _ world => world.close
  | .error _ world => world.close

def World.step (world : World Rows Manifest) : Event → World Rows Manifest
  | .write tables => world.write deployment tables
  | .command connection command schedule =>
      match world.journal with
      | none => world
      | some state => World.finish ((executeCommand deployment connection state command).run { world with schedule })

/-- The journal of a cutover is planned once, and can be interrupted as well. -/
def World.start (world : World Rows Manifest) (connection : Connection) (target archive createdAt : String)
    (inherited : Option (Journal Manifest)) (schedule : List Moment) : World Rows Manifest :=
  World.finish ((executePlan deployment connection deployment.live target archive createdAt inherited).run
    { world with schedule })

def World.runAll (world : World Rows Manifest) (events : List Event) : World Rows Manifest :=
  events.foldl (World.step deployment) world

end SchemaRefactor

end QsAi
