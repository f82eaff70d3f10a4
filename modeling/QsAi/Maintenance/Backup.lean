import QsAi.Foundation.PercentEncoding
import QsAi.Maintenance.BackupFormat
import QsAi.Maintenance.Layouts

/-! Native backups. One snapshot of a database is written as a header, the tables
of its frozen layout in the order in which they can be created, and a footer; a
backup is scanned before anything of it is used. -/
namespace QsAi

open Guarded PyJson TextEncoding PercentEncoding BigEndian SchemaRefactor

namespace Backup

/-! Frozen layouts. -/

structure Column where
  name : String
  /-- Whether its type holds characters. -/
  character : Bool
  collation : Option String
  generated : Bool

/-- A table of a layout, its columns by name and the tables it refers to. -/
structure Template where
  name : String
  columns : List Column
  parents : List String
  distinct : (columns.map (·.name)).Nodup

theorem versionColumn_distinct : (List.map (·.name) [Column.mk "version_num" true none false]).Nodup :=
  List.nodup_singleton _

def alembicVersion : Template := ⟨versionTable, [⟨"version_num", true, none, false⟩], [], versionColumn_distinct⟩

/-- The tables of the frozen layouts and the files that hold them. -/
structure Contract where
  legacy : List Template
  final : List Template
  legacyFile : Bytes
  finalFile : Bytes
  legacy_distinct : ((legacy ++ [alembicVersion]).map (·.name)).Nodup
  final_distinct : ((final ++ [alembicVersion]).map (·.name)).Nodup

/-- The two layouts that are backed up. -/
inductive Storage
  | old
  | new
deriving DecidableEq

def Storage.head : Storage → Head
  | .old => .old
  | .new => .new

section Layout

variable (sha : Sha256) (contract : Contract)

def contractSha : Storage → Text
  | .old => sha.hexdigest contract.legacyFile
  | .new => sha.hexdigest contract.finalFile

def templates : Storage → List Template
  | .old => contract.legacy ++ [alembicVersion]
  | .new => contract.final ++ [alembicVersion]

end Layout

/-- The layout that a header names. -/
def storage (head : Value) : Outcome Storage :=
  if head.isText (text Head.old.revision) then pure .old
  else if head.isText (text Head.new.revision) then pure .new
  else refuse (.invalid "Backup requires exact 0038 or 0040 storage")

def sortNames (names : List String) : List Text := (names.map text).insertionSort (· ≤ ·)

namespace Template

variable (template : Template)

def captured : List Text := sortNames ((template.columns.filter fun column => !column.generated).map (·.name))

def generated : List Text := sortNames ((template.columns.filter (·.generated)).map (·.name))

def characters : List Column := template.columns.filter (·.character)

end Template

/-! Checks of a header. -/

/-- `re.fullmatch` on a value that has to be a string. -/
def fullmatch (pattern : Text → Bool) (message : String) (value : Value) : Outcome Text := do
  let word ← native (demand value.asText .type)
  refuseUnless (pattern word = true) message
  pure word

def isSmall (c : Nat) : Bool := 97 ≤ c && c ≤ 122

def isWord (c : Nat) : Bool := isSmall c || PyJson.isDigit c || c == 95

/-- `[a-z][a-z0-9_]{0,63}`. -/
def isIdentifier : Text → Bool
  | first :: rest => isSmall first && rest.length ≤ 63 && rest.all isWord
  | [] => false

def identifier (value : Value) : Outcome Text := fullmatch isIdentifier "Invalid schema/table identifier" value

/-- `[0-9a-f-]{36}`. -/
def isServerUuid (word : Text) : Bool :=
  word.length == 36 && word.all fun c => PyJson.isDigit c || (97 ≤ c && c ≤ 102) || c == 45

/-- `[A-Z0-9_,]*`. -/
def isSqlMode (word : Text) : Bool := word.all fun c => (65 ≤ c && c ≤ 90) || PyJson.isDigit c || c == 95 || c == 44

/-- `(?:utf8mb4|ascii)_[a-z0-9_]+`. -/
def isInheritable (word : Text) : Bool :=
  [text "utf8mb4_", text "ascii_"].any fun charset =>
    charset.isPrefixOf word && word.drop charset.length != [] && (word.drop charset.length).all isWord

/-- `set(value) == names` where the names are strings. -/
def sameNames (value : Value) (names : List Text) : Except Fault Bool := do
  let items ← value.elements
  require (items.all Value.hashable = true) .type
  pure (match items.mapM Value.asText with
    | some words => decide (words ⊆ names ∧ names ⊆ words)
    | none => false)

/-- `value == names` where the names are strings. -/
def isNames (value : Value) (names : List Text) : Bool :=
  match value with
  | .array items => items.mapM Value.asText == some names
  | _ => false

def isDictionary : Value → Bool
  | .object _ => true
  | _ => false

def isCounter : Value → Bool
  | .null => true
  | .int value => 1 ≤ value && value ≤ 2 ^ 64 - 1
  | _ => false

/-- The archived definition is a short text. -/
def archived : Value → Outcome Text
  | .string sql => do
      refuseUnless (sql.length ≤ 1024 * 1024) "Invalid archived structural evidence"
      pure sql
  | _ => refuse (.invalid "Invalid archived structural evidence")

def checkStructure (sha : Sha256) (table : Value) : Outcome Unit := do
  let sql ← native (table.item "create_sql")
  let sql ← archived sql
  let expected ← native (table.item "ddl_sha256")
  let encoded ← native (demand (utf8Encode sql) .value)
  refuseUnless (expected.isText (sha.hexdigest (encoded.map UInt8.ofNat)) = true) "Archived structural evidence digest mismatch"

/-- The collations that columns have in a backup, by table and column. -/
abbrev Collations := List ((String × String) × Text)

def checkCollation (name : String) (collations charsets : Value) (column : Column) : Outcome ((String × String) × Text) := do
  let collation ← native (collations.item column.name)
  let charset ← native (charsets.item column.name)
  let collation ← identifier collation
  let charset ← identifier charset
  refuseUnless ((charset ++ [95]).isPrefixOf collation = true) "Backup character set binding mismatch"
  pure ((name, column.name), collation)

def validateTable (sha : Sha256) (tables : Value) (template : Template) : Outcome Collations := do
  let table ← native (tables.item template.name)
  let columns ← native (table.item "columns")
  refuseUnless (isNames columns template.captured = true) "Backup column shape differs from its frozen layout"
  let generated ← native (table.item "generated")
  refuseUnless (isNames generated template.generated = true) "Backup column shape differs from its frozen layout"
  let collations ← native (table.item "collations")
  let bound ← native (sameNames collations (template.characters.map fun column => text column.name))
  refuseUnless (bound = true) "Backup character column binding is incomplete"
  let charsets ← native (table.item "character_sets")
  let bound ← native (sameNames charsets (template.characters.map fun column => text column.name))
  refuseUnless (bound = true) "Backup character column binding is incomplete"
  let physical ← template.characters.mapM (checkCollation template.name collations charsets)
  let collation ← native (table.item "table_collation")
  let collation ← identifier collation
  let charset ← native (table.item "table_character_set")
  let charset ← identifier charset
  refuseUnless ((charset ++ [95]).isPrefixOf collation = true) "Backup table character set binding mismatch"
  let counter ← native (table.item "auto_increment")
  refuseUnless (isCounter counter = true) "Invalid captured auto increment floor"
  checkStructure sha table
  pure physical

/-- A collation in the old layout is the declared one, or one of its character
set where none is declared. -/
def checkLegacyCollation (template : Template) (name : Text) (value : Value) : Outcome Unit := do
  let word ← demand (value.asText.filter isInheritable) (.refused (.invalid "Unsupported inherited character collation"))
  match (template.columns.find? fun column => text column.name == name).bind (·.collation) with
  | some declared => refuseUnless (word = text declared) "Legacy explicit collation has drifted"
  | none => refuseUnless ((text "utf8mb4_").isPrefixOf word = true) "Legacy inherited character set has drifted"

def checkLegacyCollations (template : Template) : Value → Outcome Unit
  | .object fields => fields.forM fun field => checkLegacyCollation template field.1 field.2
  | _ => .error (.raised .attribute)

def checkLegacyTable (tables : Value) (template : Template) : Outcome Unit := do
  let table ← native (tables.item template.name)
  let collations ← native (table.item "collations")
  let bound ← native (sameNames collations (template.characters.map fun column => text column.name))
  refuseUnless (bound = true) "Inherited collation column map is incomplete or unknown"
  checkLegacyCollations template collations

def validateColumnCollations (contract : Contract) (tables : Value) : Outcome Unit :=
  contract.legacy.forM (checkLegacyTable tables)

/-- Columns of the new layout that took the collation of the old prompts. -/
def legacyColumns : List (List (String × String)) :=
  [[("governance_draft_heads", "prompt_draft_id_key"), ("governance_prompt_draft_freezes", "draft_id"),
    ("governance_solutions", "draft_id")],
   [("governance_draft_versions", "command_id"), ("governance_draft_versions", "prompt_command_id_key")]]

/-- The one collation of a cohort. -/
def cohort (physical : Collations) (columns : List (String × String)) : Outcome Collations := do
  let values ← columns.mapM fun column => native (demand (physical.lookup column) .key)
  match values with
  | [] => refuse (.invalid "Backup prompt cohort mismatch")
  | first :: rest => do
      refuseUnless (∀ value ∈ rest, value = first) "Backup prompt cohort mismatch"
      pure (columns.map fun column => (column, first))

def checkFinalCollation (physical inherited : Collations) (template : Template) (column : Column) : Outcome Unit := do
  let collation ← native (demand (physical.lookup (template.name, column.name)) .key)
  match (inherited.lookup (template.name, column.name)).or (column.collation.map text) with
  | some expected => refuseUnless (collation = expected) "Backup explicit column collation mismatch"
  | none => refuseUnless ((text "utf8mb4_").isPrefixOf collation = true) "Backup inherited character set mismatch"

def validateFinalCollations (contract : Contract) (physical : Collations) : Outcome Unit := do
  let prompt ← legacyColumns.mapM (cohort physical)
  contract.final.forM fun template => template.characters.forM (checkFinalCollation physical prompt.flatten template)

/-- The collations of the columns, by the rules of their layout. -/
def validateCollations (contract : Contract) (tables : Value) (physical : Collations) : Storage → Outcome Unit
  | .old => validateColumnCollations contract tables
  | .new => validateFinalCollations contract physical

/-- `_validate_header`: the layout of a header that is accepted. -/
def validateHeader (sha : Sha256) (contract : Contract) (header : Value) : Outcome Storage := do
  let kind ← native (header.get "type")
  refuseUnless (kind.any (·.isText (text "header")) = true) "Unknown backup format"
  let version ← native (header.get "format")
  refuseUnless (version.any (·.isText (text format)) = true) "Unknown backup format"
  let schema ← native (header.item "source_schema")
  let _ ← identifier schema
  let uuid ← native (header.item "source_server_uuid")
  let _ ← fullmatch isServerUuid "Invalid source server identity" uuid
  let head ← native (header.item "head")
  let layout ← storage head
  let digest ← native (header.item "contract_sha256")
  refuseUnless (digest.isText (contractSha sha contract layout) = true) "Backup versioned schema contract mismatch"
  let charset ← native (header.item "character_set")
  let _ ← identifier charset
  let collation ← native (header.item "collation")
  let _ ← identifier collation
  let mode ← native (header.item "sql_mode")
  let _ ← fullmatch isSqlMode "Invalid captured session mode" mode
  let tables ← native (header.item "tables")
  refuseUnless (isDictionary tables = true) "Backup table set differs from its frozen layout"
  let bound ← native (sameNames tables ((templates contract layout).map fun template => text template.name))
  refuseUnless (bound = true) "Backup table set differs from its frozen layout"
  let physical ← (templates contract layout).mapM (validateTable sha tables)
  validateCollations contract tables physical.flatten layout
  pure layout

/-! The order of the tables. -/

/-- One round after the other: the tables whose parents exist, in the order of
their names. -/
def creationRounds : Nat → List String → List Template → Outcome (List String)
  | _, result, [] => pure result
  | 0, _, _ :: _ => refuse (.invalid "Frozen schema foreign key graph is cyclic")
  | fuel + 1, result, pending =>
      let ready := (pending.filter fun template => decide (template.parents ⊆ result)).map (·.name)
      if ready = [] then refuse (.invalid "Frozen schema foreign key graph is cyclic")
      else
        creationRounds fuel (result ++ ready.insertionSort fun a b => text a ≤ text b)
          (pending.filter fun template => !decide (template.parents ⊆ result))

def creationOrder (specs : List Template) : Outcome (List String) := creationRounds specs.length [] specs

/-! Records. -/

def tableRecord (name : String) : List (String × Value) := [("type", .string (text "table")), ("name", .string (text name))]

def rowRecord (values : Row) : List (String × Value) := [("type", .string (text "row")), ("values", encode values)]

/-- The count and the digest of the rows of a table. -/
def physicalEntry (sha : Sha256) (rows : List Row) : List (String × Value) :=
  [("rows", .int rows.length), ("sha256", .string (sha.hexdigest (rows.flatMap (nativeDigest sha))))]

def endRecord (sha : Sha256) (name : String) (rows : List Row) : List (String × Value) :=
  [("type", .string (text "end_table")), ("name", .string (text name))] ++ physicalEntry sha rows

/-- A table with its rows. -/
abbrev Content := String × List Row

def physicalManifest (sha : Sha256) (tables : List Content) : Value :=
  dictionary (tables.map fun table => (table.1, dictionary (physicalEntry sha table.2)))

/-! Scanning. -/

def next : List (Outcome Record) → Outcome (Record × List (Outcome Record))
  | [] => refuse .exhausted
  | item :: rest => do
      let record ← item
      pure (record, rest)

/-- The loop is over. -/
def ended (message : String) : List (Outcome Record) → Outcome Unit
  | [] => pure ()
  | item :: _ => do
      let _ ← item
      refuse (.invalid message)

/-- The record names this kind. -/
def isKind (record : Record) (kind : String) : Bool := (record.lookup (text "type")).any (·.isText (text kind))

/-- The record has these keys and no others. -/
def hasKeys (record : Record) (keys : List String) : Bool :=
  decide (record.map (·.1) ⊆ keys.map text ∧ keys.map text ⊆ record.map (·.1))

def isRecord (record : Record) (expected : List (String × Value)) : Bool := equal (.object record) (dictionary expected)

def readRow (size : Nat) (record : Record) : Outcome Row := do
  refuseUnless (hasKeys record ["type", "values"] = true ∧ isKind record "row" = true) "Unknown native backup record"
  let values ← native ((Value.object record).item "values")
  decode values size

/-- The rows of one table up to its end. -/
def scanTable (sha : Sha256) (name : String) (size : Nat) : List Row → List (Outcome Record) →
    Outcome (List Row × List (Outcome Record))
  | _, [] => refuse (.invalid "Incomplete backup table")
  | found, item :: rest => do
      let record ← item
      if isKind record "end_table" then do
        refuseUnless (isRecord record (endRecord sha name found) = true) "Backup native table digest mismatch"
        pure (found, rest)
      else do
        let row ← readRow size record
        scanTable sha name size (found ++ [row]) rest

def listLength : Value → Except Fault Nat
  | .array items => .ok items.length
  | _ => .error .type

/-- How many cells the rows of a table have. -/
def tableSize (tables : Value) (name : String) : Except Fault Nat := do
  let table ← tables.item name
  let columns ← table.item "columns"
  let columns ← listLength columns
  let generated ← table.item "generated"
  let generated ← listLength generated
  pure (columns + generated)

def scanTables (sha : Sha256) (tables : Value) : List String → List (Outcome Record) →
    Outcome (List Content × List (Outcome Record))
  | [], reader => pure ([], reader)
  | name :: order, reader => do
      let start ← next reader
      refuseUnless (isRecord start.1 (tableRecord name) = true) "Backup table order or completeness mismatch"
      let size ← native (tableSize tables name)
      let table ← scanTable sha name size [] start.2
      let rest ← scanTables sha tables order table.2
      pure ((name, table.1) :: rest.1, rest.2)

def checkFooter (sha : Sha256) (contract : Contract) (tables : List Content) (footer : Record) : Outcome Unit := do
  refuseUnless (hasKeys footer ["type", "physical_manifest", "manifest"] = true ∧ isKind footer "footer" = true)
    "Incomplete backup footer"
  let physical ← native ((Value.object footer).item "physical_manifest")
  refuseUnless (equal physical (physicalManifest sha tables) = true) "Backup manifest table binding mismatch"
  let manifest ← native ((Value.object footer).item "manifest")
  let bound ← native (sameNames manifest (contract.legacy.map fun template => text template.name))
  refuseUnless (bound = true) "Backup manifest table binding mismatch"

/-- `_scan`: the header and the footer of a backup that is accepted. -/
def scan (sha : Sha256) (contract : Contract) (reader : List (Outcome Record)) : Outcome (Record × Record) := do
  let header ← next reader
  let layout ← validateHeader sha contract (.object header.1)
  let order ← creationOrder (templates contract layout)
  let tables ← native ((Value.object header.1).item "tables")
  let found ← scanTables sha tables order header.2
  let footer ← next found.2
  checkFooter sha contract found.1 footer.1
  ended "Unexpected trailing backup records" footer.2
  pure (header.1, footer.1)

/-! Restoring. -/

/-- The rows that a restore inserts into one table. -/
def restoreTable (name : String) (size : Nat) : List Row → List (Outcome Record) → Outcome (List Row × List (Outcome Record))
  | _, [] => refuse (.invalid "Incomplete backup during restore")
  | found, item :: rest => do
      let record ← item
      if isKind record "row" then do
        let values ← native ((Value.object record).item "values")
        let row ← decode values size
        restoreTable name size (found ++ [row]) rest
      else if isKind record "end_table" && (record.lookup (text "name")).any (·.isText (text name)) then pure (found, rest)
      else refuse (.invalid "Backup records changed during restore")

def restoreTables (tables : Value) : List String → List (Outcome Record) → Outcome (List Content × List (Outcome Record))
  | [], reader => pure ([], reader)
  | name :: order, reader => do
      let start ← next reader
      refuseUnless (isRecord start.1 (tableRecord name) = true) "Backup table order changed during restore"
      let size ← native (tableSize tables name)
      let table ← restoreTable name size [] start.2
      let rest ← restoreTables tables order table.2
      pure ((name, table.1) :: rest.1, rest.2)

/-- The streaming pass of `restore` over a backup that was scanned: what it inserts. -/
def restored (contract : Contract) (header footer : Record) (reader : List (Outcome Record)) : Outcome (List Content) := do
  let head ← native ((Value.object header).item "head")
  let layout ← storage head
  let first ← next reader
  refuseUnless (equal (.object first.1) (.object header) = true) "Backup header changed during restore"
  let order ← creationOrder (templates contract layout)
  let tables ← native ((Value.object header).item "tables")
  let found ← restoreTables tables order first.2
  let last ← next found.2
  refuseUnless (equal (.object last.1) (.object footer) = true) "Backup footer changed during restore"
  ended "Backup footer changed during restore" last.2
  pure found.1

/-! Writing. -/

/-- What the database tells about a table: its collation and that of each of its
character columns with their character sets, its counter and its definition. -/
structure TableMetadata where
  name : String
  collation : String
  charset : String
  counter : Option Nat
  ddl : String
  columns : List (String × (String × String))

/-- What the database tells about a schema. -/
structure Metadata where
  serverUuid : String
  characterSet : String
  collation : String
  sqlMode : String
  capturedAt : String
  tables : List TableMetadata
  distinct : (tables.map (·.name)).Nodup

def word (value : String) : Value := .string (text value)

def counterValue : Option Nat → Value
  | none => .null
  | some counter => .int counter

def namesValue (names : List Text) : Value := .array (names.map .string)

def captureTable (sha : Sha256) (specs : List Template) (table : TableMetadata) : Outcome (String × Value) := do
  let spec ← native (demand (specs.find? (·.name == table.name)) .key)
  let bindings ← spec.characters.mapM fun column => do
    let binding ← native (demand (table.columns.lookup column.name) .key)
    pure (column.name, binding)
  let encoded ← native (demand (utf8Encode (text table.ddl)) .value)
  pure (table.name, dictionary
    [("columns", namesValue spec.captured), ("generated", namesValue spec.generated),
     ("collations", dictionary (bindings.map fun binding => (binding.1, word binding.2.2))),
     ("character_sets", dictionary (bindings.map fun binding => (binding.1, word binding.2.1))),
     ("table_collation", word table.collation), ("table_character_set", word table.charset),
     ("auto_increment", counterValue table.counter), ("create_sql", word table.ddl),
     ("ddl_sha256", .string (sha.hexdigest (encoded.map UInt8.ofNat)))])

/-- `_capture`: the header of a schema. -/
def capture (sha : Sha256) (contract : Contract) (layout : Storage) (schema : String) (metadata : Metadata) :
    Outcome (List (String × Value)) := do
  let tables ← metadata.tables.mapM (captureTable sha (templates contract layout))
  let header : List (String × Value) :=
    [("type", word "header"), ("format", word format), ("source_schema", word schema),
     ("source_server_uuid", word metadata.serverUuid), ("head", word layout.head.revision),
     ("contract_sha256", .string (contractSha sha contract layout)), ("character_set", word metadata.characterSet),
     ("collation", word metadata.collation), ("sql_mode", word metadata.sqlMode),
     ("captured_at", word metadata.capturedAt), ("tables", dictionary tables)]
  let _ ← validateHeader sha contract (dictionary header)
  pure header

/-- What one snapshot of a database holds. A row gives the bytes of each column;
the logical manifest has the count and the digest of every table of the old layout. -/
structure Source where
  schema : String
  layout : Storage
  before : Metadata
  after : Metadata
  rows : String → List (Text → Cell)
  manifest : String → Nat × String

/-- `_native_rows`: the cells of the columns of a table, the generated ones last. -/
def nativeRows (source : Source) (template : Template) : List Row :=
  (source.rows template.name).map fun row => (template.captured ++ template.generated).map row

/-- The tables of the snapshot in the order in which they are written. -/
def contents (contract : Contract) (source : Source) (order : List String) : List Content :=
  order.filterMap fun name =>
    ((templates contract source.layout).find? (·.name == name)).map fun template => (name, nativeRows source template)

def tableRecords (sha : Sha256) (table : Content) : List (List (String × Value)) :=
  tableRecord table.1 :: (table.2.map rowRecord ++ [endRecord sha table.1 table.2])

/-- The manifest of the footer: the counters of the tables that number their rows
stand beside the digests. -/
def manifestEntry (source : Source) (tables : Value) (name : String) : Outcome (String × Value) := do
  let entry : List (String × Value) := [("rows", .int (source.manifest name).1), ("sha256", word (source.manifest name).2)]
  if name ∈ autoIncrementTables then do
    let table ← native (tables.item (physical name source.layout.head))
    let counter ← native (table.item "auto_increment")
    pure (name, dictionary (entry ++ [("auto_increment", counter)]))
  else pure (name, dictionary entry)

/-- A backup that was written: what its receipt summarises, and the stream. -/
structure Written where
  header : Value
  footer : Value
  stream : Bytes

/-- `backup`: the records of a snapshot. -/
def backup (sha : Sha256) (contract : Contract) (source : Source) : Outcome Written := do
  let _ ← identifier (word source.schema)
  let header ← capture sha contract source.layout source.schema source.before
  let first ← emit (dictionary header)
  let order ← creationOrder (templates contract source.layout)
  let found := contents contract source order
  let body ← (found.flatMap (tableRecords sha)).mapM fun record => emit (dictionary record)
  let tables ← native ((dictionary header).item "tables")
  native (require (autoIncrementTables ⊆ contract.legacy.map (·.name)) .key)
  let manifest ← (contract.legacy.map (·.name)).mapM (manifestEntry source tables)
  let footer : List (String × Value) :=
    [("type", word "footer"), ("physical_manifest", physicalManifest sha found), ("manifest", dictionary manifest)]
  -- the time of the second capture is not compared
  let after ← capture sha contract source.layout source.schema { source.after with capturedAt := source.before.capturedAt }
  refuseUnless (equal (dictionary after) (dictionary header) = true) "Source structural or auto increment evidence changed"
  let last ← emit (dictionary footer)
  pure ⟨dictionary header, dictionary footer, first ++ body.flatten ++ last⟩

end Backup

end QsAi
