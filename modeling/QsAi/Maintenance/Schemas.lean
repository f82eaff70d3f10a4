import QsAi.Maintenance.Layouts
import QsAi.Foundation.Interrupted

/-! Schemas under maintenance. A command reads and changes schemas and its
journal one step at a time; between any two steps it can be interrupted, time
passes, and the application writes to its live schema unless it is fenced. -/
namespace QsAi

namespace SchemaRefactor

/-- A row, by column; a missing value is the null one. -/
abbrev Row := List (String × Option String)

/-- The value of a column. -/
def column (row : Row) (name : String) : Option String := (row.find? (·.1 == name)).bind (·.2)

structure Table where
  name : String
  /-- An ordinary table of the transactional engine. -/
  base : Bool
  definition : String
  rows : List Row
  counter : Option Nat
deriving DecidableEq

/-- A schema: its character set and collation, its tables, and what else it
holds or what refers to it. -/
structure Schema where
  options : String × String
  tables : List Table
  triggers : Nat
  programs : Nat
  referenced : Nat
deriving DecidableEq

abbrev Database := String → Option Schema

def Database.set (db : Database) (name : String) (schema : Option Schema) : Database :=
  fun other => if other = name then schema else db other

theorem Database.set_same (db : Database) (name : String) (schema : Option Schema) : db.set name schema name = schema :=
  if_pos rfl

theorem Database.set_other {name other : String} (h : other ≠ name) (db : Database) (schema : Option Schema) :
    db.set name schema other = db other :=
  if_neg h

def tableNames (tables : List Table) : List String := tables.map (·.name)

def versions (tables : List Table) : List (Option String) :=
  match tables.find? (·.name == versionTable) with
  | none => []
  | some table => table.rows.map (column · "version_num")

/-- The head of a schema, if it has exactly one that is known. -/
def headOf (tables : List Table) : Option Head :=
  match versions tables with
  | [some revision] => Head.read revision
  | _ => none

/-- The seeds, each of them without a count. -/
def seedSet (rows : List Row) : Bool :=
  rows.all (fun row => observationSeeds.any fun seed => column row "kind" == some seed) &&
    observationSeeds.all (fun seed => rows.any fun row => column row "kind" == some seed) &&
    rows.all fun row => column row "recorded_count" == some "0" && column row "last_observed_at" == none

/-- No observation, or exactly the seeds. -/
def seedsOnly (rows : List Row) : Bool := rows.isEmpty || (rows.length == observationSeeds.length && seedSet rows)

/-- Empty tables besides the version and the seeds. -/
def pristine (head : Head) (tables : List Table) : Bool :=
  tables.all fun table =>
    table.name == versionTable ||
      (if table.name == physical observationTable head then seedsOnly table.rows else table.rows.isEmpty)

/-- What the code knows of the schemas besides what it inspects itself: the
definitions of a layout, its evidence and rows, and the steps of a migration. -/
structure Deployment (Rows Manifest : Type) where
  /-- The schema that the application reads and writes. -/
  live : String
  definitions : Head → List (String × String) → Bool
  precheck : Head → List Table → Bool
  manifest : Head → List Table → Manifest
  /-- The evidence without the counters. -/
  rowsOnly : Manifest → Manifest
  /-- The logical rows, whatever the layout. -/
  rows : List Table → Rows
  revisions : List String
  upgrade : Head → Schema → List Schema
  projected : Head → List Table → String → List Row
  suffix : String → String → String

section

variable {Rows Manifest : Type} (deployment : Deployment Rows Manifest)

/-- Equal evidence means equal rows. -/
def Deployment.Faithful : Prop :=
  ∀ head other tables others, deployment.manifest head tables = deployment.manifest other others →
    deployment.rows tables = deployment.rows others

/-- The tables of a schema are those of a layout. -/
def Deployment.layout (head : Head) (tables : List Table) : Bool :=
  (expectedTables head).all (fun name => (tableNames tables).contains name) &&
    (tableNames tables).all (fun name => (expectedTables head).contains name) &&
    headOf tables == some head && tables.all (·.base) &&
    deployment.definitions head (tables.map fun table => (table.name, table.definition))

/-- `require_schema`, as a question. -/
def Deployment.conforms (head : Head) (schema : Schema) : Bool :=
  deployment.layout head schema.tables && schema.triggers == 0 && schema.referenced == 0

/-- One of the two layouts that an application can run on. -/
def Deployment.complete (schema : Schema) : Bool := deployment.conforms .old schema || deployment.conforms .new schema

def knownTables : List String :=
  versionTable :: legacyTables.flatMap fun name => [physical name .old, physical name .intermediate, physical name .new]

/-- Known tables without business data, which an interrupted preparation left. -/
def Deployment.discardable (options : String × String) (schema : Schema) : Bool :=
  (tableNames schema.tables).all (fun name => knownTables.contains name) && schema.options == options &&
    schema.tables.all (·.base) && schema.triggers == 0 && schema.programs == 0 &&
    schema.tables.all (fun table =>
      if table.name == versionTable then
        decide (table.rows.length ≤ 1) && table.rows.all fun row =>
          deployment.revisions.any fun revision => column row "version_num" == some revision
      else if [Head.old, .intermediate, .new].any (fun head => table.name == physical observationTable head) then
        seedsOnly table.rows
      else table.rows.isEmpty) &&
    schema.referenced == 0

end

/-! The journal of one cutover. -/

inductive Phase
  | planned
  | preparePending
  | prepared
  | copyPending
  | copied
  | verified
  | switchPending
  | switched
  | rollbackPending
  | rolledBack
  | cleanupPending
  | cleaned
deriving DecidableEq

inductive RollbackMode
  | fast
  | reverse
deriving DecidableEq

/-- An archive that is kept, and what its later removal needs. -/
structure Retained (Manifest : Type) where
  schema : String
  head : Head
  manifest : Manifest
  retainedSince : Nat
  emptyAfterRestore : Bool
  dropPending : Bool
  deletedAt : Option Nat

structure Rollback (Manifest : Type) where
  target : String
  archive : String
  manifest : Manifest
  stoppedAt : Nat
  mode : RollbackMode

/-- What is recorded of a cutover; times are seconds on one clock. -/
structure Journal (Manifest : Type) where
  phase : Phase
  source : String
  target : String
  archive : String
  sourceHead : Head
  targetHead : Head
  serverUuid : String
  createdAt : String
  contractSha256 : String
  ownedSchemas : List String
  sourceManifest : Option Manifest
  stoppedAt : Option Nat
  switchedAt : Option Nat
  rolledBackAt : Option Nat
  runtimeMayHaveWritten : Bool
  rollback : Option (Rollback Manifest)
  retainedArchives : List (Retained Manifest)

/-- What a step does durably. -/
inductive Effect
  | commit
  | create (schema : String)
  | alter (schema : String)
  | drop (schema : String)
  /-- The tables of the source go to the archive, those of the other schema to the source. -/
  | exchange (source target archive : String)
deriving DecidableEq

/-- A durable step, with what was there before it. -/
structure Act (Rows Manifest : Type) where
  effect : Effect
  database : Database
  journal : Option (Journal Manifest)
  latest : Rows
  clock : Nat

/-- What happens before a step of a command: the application's writes, the
passing time, and whether the command is interrupted there. -/
structure Moment where
  writes : List (List Table)
  elapsed : Nat
  raises : Bool

structure World (Rows Manifest : Type) where
  durable : Database
  /-- What the connection of the command sees. -/
  view : Database
  journal : Option (Journal Manifest)
  /-- The rows that the application wrote last. -/
  latest : Rows
  clock : Nat
  /-- No other connection is left in the fenced schemas. -/
  fenced : Bool
  schedule : List Moment
  history : List (Act Rows Manifest)

inductive Refusal
  | value (message : String)
  | timeout (message : String)
  | interrupted
deriving DecidableEq

section

variable {Rows Manifest : Type} (deployment : Deployment Rows Manifest)

abbrev Maintenance (Rows Manifest α : Type) := EStateM Refusal (World Rows Manifest) α

/-- The application changes rows of its schema, whose layout stays what it is. -/
def World.write (world : World Rows Manifest) (tables : List Table) : World Rows Manifest :=
  match world.durable deployment.live with
  | none => world
  | some schema =>
      let next : Schema := { schema with tables }
      if deployment.complete schema = true ∧ deployment.complete next = true ∧ headOf schema.tables = headOf tables then
        { world with
          durable := world.durable.set deployment.live (some next)
          view := world.view.set deployment.live (some next)
          latest := deployment.rows tables }
      else world

def World.interfere (world : World Rows Manifest) (moment : Moment) : World Rows Manifest :=
  let world := if world.fenced then world else moment.writes.foldl (World.write deployment) world
  { world with clock := world.clock + moment.elapsed }

def moment : Maintenance Rows Manifest Unit := do
  let world ← get
  match world.schedule with
  | [] => pure ()
  | next :: rest => do
      set { world.interfere deployment next with schedule := rest }
      if next.raises then throw .interrupted else pure ()

/-- Read something. -/
def look {α : Type} (read : World Rows Manifest → α) : Maintenance Rows Manifest α := do
  moment deployment
  let world ← get
  pure (read world)

def refuseUnless (condition : Prop) [Decidable condition] (refusal : Refusal) : Maintenance Rows Manifest Unit :=
  if condition then pure () else throw refusal

def demand {α : Type} (value : Option α) (refusal : Refusal) : Maintenance Rows Manifest α :=
  match value with
  | some value => pure value
  | none => throw refusal

def existsSchema (name : String) : Maintenance Rows Manifest Bool := look deployment fun world => (world.view name).isSome

/-- The names of the tables; a schema that does not exist has none. -/
def tablesOf (name : String) : Maintenance Rows Manifest (List String) :=
  look deployment fun world => ((world.view name).map fun schema => tableNames schema.tables).getD []

def contents (name : String) (refusal : Refusal) : Maintenance Rows Manifest Schema := do
  let schema ← look deployment fun world => world.view name
  demand schema refusal

def headOfSchema (name : String) : Maintenance Rows Manifest Head := do
  let schema ← contents deployment name (.value "Unknown or multiple database heads")
  demand (headOf schema.tables) (.value "Unknown or multiple database heads")

/-- `require_schema`, as a question. -/
def conformsSchema (head : Head) (name : String) : Maintenance Rows Manifest Bool :=
  look deployment fun world => ((world.view name).map (deployment.conforms head)).getD false

def requireSchema (head : Head) (name : String) : Maintenance Rows Manifest Unit := do
  let conforms ← conformsSchema deployment head name
  refuseUnless (conforms = true) (.value "Database table set differs from its versioned layout")

/-- The evidence of a schema, after its precheck. -/
def manifest (name : String) (head : Head) : Maintenance Rows Manifest Manifest := do
  let schema ← contents deployment name (.value "Orphan source evidence prevents migration")
  refuseUnless (deployment.precheck head schema.tables = true) (.value "Orphan source evidence prevents migration")
  pure (deployment.manifest head schema.tables)

def pristineSchema (name : String) (head : Head) : Maintenance Rows Manifest Bool :=
  look deployment fun world => ((world.view name).map fun schema => pristine head schema.tables).getD false

def now : Maintenance Rows Manifest Nat := look deployment (·.clock)

/-- Keep what the connection did. -/
def settle : Maintenance Rows Manifest Unit := modify fun world => { world with durable := world.view }

def record (effect : Effect) : Maintenance Rows Manifest Unit :=
  modify fun world =>
    { world with history := world.history ++ [⟨effect, world.durable, world.journal, world.latest, world.clock⟩] }

def commit : Maintenance Rows Manifest Unit := do
  moment deployment
  record .commit
  settle

/-- A statement that changes schemas: it commits first, and is durable. -/
def define (effect : Effect) (change : Database → Database) : Maintenance Rows Manifest Unit := do
  commit deployment
  moment deployment
  record effect
  modify fun world => { world with durable := change world.durable, view := change world.view }

/-- Replace the journal on disk. -/
def save (journal : Journal Manifest) : Maintenance Rows Manifest Unit := do
  moment deployment
  modify fun world => { world with journal := some journal }

/-- Rows that the connection writes and has not committed. -/
def stage (name : String) (schema : Schema) : Maintenance Rows Manifest Unit := do
  moment deployment
  modify fun world => { world with view := world.view.set name (some schema) }

/-- All writers are stopped and no connection of theirs is left. -/
def fenced (stopped : Bool) : Maintenance Rows Manifest Unit := do
  refuseUnless (stopped = true) (.value "Stop all writers and hold the deployment locks before maintenance")
  moment deployment
  modify fun world => { world with fenced := true }

end

end SchemaRefactor

end QsAi
