import QsAi.Foundation.Guarded
import QsAi.Foundation.Keyed
import Mathlib.Data.List.Sort

/-! What a database holds of the retired prompts. An inventory lists the rows that
nothing refers to any more and freezes digests of every table, once with those
rows and once without them. -/
namespace QsAi

open Guarded Keyed

namespace PromptRetirement

def templateId : String := "cross-dimension-participant-scale"

def versions : List String := ["v1", "v2", "v3", "v4", "v5"]

def newHead : String := "0040_module_table_names"

/-- A cell as the server stores it. -/
abbrev Cell := Option String

/-- A row of `governance_asset_versions`; the columns that nothing here looks at
are kept together. -/
structure AssetRow where
  rowId : Nat
  assetKind : String
  ownerOrganizationId : Nat
  assetId : String
  version : String
  fingerprint : String
  bodyFormat : String
  body : String
  packageSha256 : Option String
  profileIdKey : Option String
  rest : List Cell
deriving DecidableEq

def AssetRow.cells (row : AssetRow) : List Cell :=
  [some (toString row.rowId), some row.assetKind, some (toString row.ownerOrganizationId), some row.assetId,
    some row.version, some row.fingerprint, some row.bodyFormat, some row.body, row.packageSha256, row.profileIdKey] ++
    row.rest

/-- The identity and the definitions of a schema: its tables with their counters. -/
structure Structure where
  serverUuid : String
  sourceSchema : String
  head : String
  tables : List (String × String)
deriving DecidableEq

/-- A foreign key on the assets, with the columns it ties. -/
structure ForeignKey where
  schema : String
  table : String
  constraint : String
  columns : List String
  parentColumns : List String
  onUpdate : String
  onDelete : String
deriving DecidableEq

/-- Only the registrations of profiles cannot refer to a prompt. -/
def ForeignKey.promptReference (key : ForeignKey) (schema : String) : Bool :=
  ! (key.schema == schema && key.table == "governance_profile_registrations" &&
    key.columns == ["profile_id", "profile_version"] && key.parentColumns == ["profile_id_key", "version"] &&
    (key.onUpdate == "RESTRICT" || key.onUpdate == "NO ACTION") &&
    (key.onDelete == "RESTRICT" || key.onDelete == "NO ACTION"))

/-- The committed contents of the source. -/
structure Database where
  header : Structure
  incoming : List ForeignKey
  assets : List AssetRow
  tables : List (String × List (List Cell))
  unique : UniqueOn (·.rowId) assets

/-- A prompt that may be retired. -/
structure Candidate where
  templateId : String
  version : String
  rowId : Nat
  fingerprint : String
  packageSha256 : String
  bodySha256 : String
  nativeRowSha256 : String
deriving DecidableEq

/-- The digest of a table: how many rows, and of what. -/
structure TableDigest where
  rows : Nat
  sha256 : String
deriving DecidableEq

structure Manifest where
  assets : TableDigest
  tables : List (String × TableDigest)
deriving DecidableEq

/-- What the server and the digests do: the record of a row, SHA-256 of records
and of texts, the check of the schema and of what the account may see, the tables
in which an asset is named, the logical digests, and the rows that a foreign key
takes along. -/
structure Inspection where
  record : List Cell → String
  rows : List String → String
  text : String → String
  schemaValid : Structure → Bool
  visible : Structure → List ForeignKey → Bool
  references : Database → Candidate → List String
  logical : Database → List (String × String)
  cascade : List ForeignKey → AssetRow → List (String × List (List Cell)) → List (String × List (List Cell))

structure Inventory where
  source : Structure
  foreignKeys : List (ForeignKey × Bool)
  candidates : List Candidate
  retained : List (Candidate × List String)
  physicalManifest : Manifest
  protectedManifest : Manifest
  logicalManifest : List (String × String)
deriving DecidableEq

/-- The digests of a source with and without the selected rows, and those rows. -/
structure Physical where
  full : Manifest
  kept : Manifest
  rows : List (String × String)
deriving DecidableEq

section Snapshot

variable (inspection : Inspection)

def tableDigest (records : List String) : TableDigest := ⟨records.length, inspection.rows records⟩

/-- The foreign keys on the assets, each with whether it can refer to a prompt. -/
def incomingKeys (database : Database) : List (ForeignKey × Bool) :=
  database.incoming.map fun key => (key, key.promptReference database.header.sourceSchema)

/-- The rows that the policy names. -/
def candidates (database : Database) : Except String (List Candidate) := do
  require (database.header.head = newHead) "New Prompt retirement candidates require exact 0040"
  let result := database.assets.filterMap fun row =>
    if row.assetKind = "prompt" ∧ row.ownerOrganizationId = 0 ∧ row.assetId = templateId ∧ row.version ∈ versions then
      some
        { templateId := row.assetId
          version := row.version
          rowId := row.rowId
          fingerprint := row.fingerprint
          packageSha256 := row.packageSha256.getD ""
          bodySha256 := inspection.text row.body
          nativeRowSha256 := "" : Candidate }
    else none
  require (result.length ≤ versions.length) "Prompt whitelist is not unique"
  pure (result.insertionSort fun a b => a.version ≤ b.version)

/-- The selected prompt that a row is, if it is one. -/
def chosen (selected : List Candidate) (row : AssetRow) : Option Candidate :=
  if row.assetKind = "prompt" ∧ row.ownerOrganizationId = 0 then
    dict (fun asset => (asset.templateId, asset.version)) selected (row.assetId, row.version)
  else none

/-- A selected row is still the one that was selected. -/
def checkIdentity (row : AssetRow) (asset : Candidate) : Except String Unit := do
  require (row.rowId = asset.rowId) "Prompt row identity changed"
  require (row.profileIdKey = none) "Prompt generated Profile key must be SQL NULL"

/-- The digests of all tables, row by row in the order of the server. -/
def physical (database : Database) (selected : List Candidate) : Except String Physical := do
  database.assets.forM fun row => (chosen selected row).forM (checkIdentity row)
  let record := fun row : AssetRow => inspection.record row.cells
  let tables := database.tables.map fun (name, rows) => (name, tableDigest inspection (rows.map inspection.record))
  pure
    { full := ⟨tableDigest inspection (database.assets.map record), tables⟩
      kept := ⟨tableDigest inspection ((database.assets.filter fun row => (chosen selected row).isNone).map record),
        tables⟩
      rows := database.assets.filterMap fun row =>
        (chosen selected row).map fun asset => (asset.version, inspection.text (record row)) }

/-- The inventory of the source. -/
def capture (database : Database) : Except String Inventory := do
  require (database.header.head = newHead) "New Prompt retirement requires exact 0040; use historical M5 for 0038"
  require (inspection.schemaValid database.header = true) "Schema differs from its contract"
  require (inspection.visible database.header database.incoming = true) "Complete source object and cross-schema FK visibility is required"
  let foreignKeys := incomingKeys database
  let assets ← candidates inspection database
  let blocked := foreignKeys.any (·.2)
  let free := fun asset : Candidate => asset.fingerprint ≠ "" ∧ asset.packageSha256 ≠ "" ∧
    inspection.references database asset = [] ∧ blocked = false
  let selected := assets.filter free
  let found ← physical inspection database selected
  let named ← selected.mapM fun asset => do
    let sha256 ← demand (dict (·.1) found.rows asset.version) "KeyError"
    pure { asset with nativeRowSha256 := sha256.2 }
  pure
    { source := database.header
      foreignKeys
      candidates := named
      retained := (assets.filter fun asset => ¬ free asset).map fun asset =>
        (asset, inspection.references database asset)
      physicalManifest := found.full
      protectedManifest := found.kept
      logicalManifest := inspection.logical database }

/-- The row is exactly the one that the plan names. -/
def Candidate.guards (asset : Candidate) (row : AssetRow) : Prop :=
  row.assetKind = "prompt" ∧ row.ownerOrganizationId = 0 ∧ row.rowId = asset.rowId ∧ row.assetId = asset.templateId ∧
    row.version = asset.version ∧ row.fingerprint = asset.fingerprint ∧
    row.packageSha256 = some asset.packageSha256 ∧ row.bodyFormat = "prompt_package_json" ∧
    inspection.text row.body = asset.bodySha256

instance (asset : Candidate) (row : AssetRow) : Decidable (asset.guards inspection row) :=
  inferInstanceAs (Decidable (_ ∧ _))

/-- What the foreign keys take along when a row goes. -/
def referential (database : Database) (row : AssetRow) : List (String × List (List Cell)) :=
  if (incomingKeys database).any (·.2) = true then inspection.cascade database.incoming row database.tables
  else database.tables

/-- The guarded deletion of one row. -/
def deleteRow (database : Database) (asset : Candidate) : Except String Database := do
  require (database.header.head = newHead) "New Prompt retirement deletion requires exact 0040"
  require (asset.templateId = templateId ∧ asset.version ∈ versions) "Delete is outside the fixed Prompt whitelist"
  match database.assets.filter fun row => asset.guards inspection row with
  | [row] =>
      pure
        { database with
          assets := database.assets.filter fun other => ¬ asset.guards inspection other
          tables := referential inspection database row
          unique := database.unique.sublist List.filter_sublist }
  | _ => throw "Guarded Prompt deletion did not match exactly one row"

/-! What an inventory says. -/

variable {inspection} {database after : Database} {selected : List Candidate} {inventory : Inventory}

theorem chosen_some {row : AssetRow} {asset : Candidate} (h : chosen selected row = some asset) :
    asset ∈ selected ∧ asset.templateId = row.assetId ∧ asset.version = row.version := by
  unfold chosen at h
  split at h
  · obtain ⟨hMem, hKey⟩ := dict_some h
    obtain ⟨hTemplate, hVersion⟩ := Prod.mk.inj hKey
    exact ⟨hMem, hTemplate, hVersion⟩
  · cases h

/-- The rows that a deletion of all selected prompts takes, one after the other. -/
def deleteAll (inspection : Inspection) (database : Database) (selected : List Candidate) : Except String Database :=
  selected.foldlM (deleteRow inspection) database

theorem deleteRow_ok {asset : Candidate} (hOk : deleteRow inspection database asset = .ok after) :
    after.assets = database.assets.filter (fun row => ¬ asset.guards inspection row) ∧
    after.header = database.header ∧ after.incoming = database.incoming ∧
    after.assets.length + 1 = database.assets.length ∧
    ((incomingKeys database).any (·.2) = false → after.tables = database.tables) := by
  simp only [deleteRow, bind_ok, require_ok, exists_const] at hOk
  obtain ⟨_, _, hOk⟩ := hOk
  split at hOk
  · rename_i row hRows
    rw [pure_ok] at hOk
    subst hOk
    refine ⟨rfl, rfl, rfl, ?_, ?_⟩
    · have hCount := List.length_eq_length_filter_add (l := database.assets) (fun row => asset.guards inspection row)
      rw [hRows, List.length_singleton] at hCount
      simp only [decide_not] at hCount ⊢
      omega
    · intro hFree
      rw [referential, hFree, if_neg Bool.false_ne_true]
  · cases hOk

theorem deleteAll_ok (hOk : deleteAll inspection database selected = .ok after) :
    after.assets = database.assets.filter (fun row => ¬ ∃ asset ∈ selected, asset.guards inspection row) ∧
    after.header = database.header ∧ after.incoming = database.incoming ∧
    after.assets.length + selected.length = database.assets.length ∧
    ((incomingKeys database).any (·.2) = false → after.tables = database.tables) := by
  induction selected generalizing database with
  | nil =>
      simp only [deleteAll, List.foldlM_nil, pure_ok] at hOk
      subst hOk
      simp
  | cons asset rest ih =>
      simp only [deleteAll, List.foldlM_cons, bind_ok] at hOk
      obtain ⟨middle, hFirst, hRest⟩ := hOk
      obtain ⟨hAssets, hHeader, hIncoming, hLength, hTables⟩ := deleteRow_ok hFirst
      obtain ⟨hRestAssets, hRestHeader, hRestIncoming, hRestLength, hRestTables⟩ := ih hRest
      have hKeys : incomingKeys middle = incomingKeys database := by rw [incomingKeys, incomingKeys, hIncoming, hHeader]
      refine ⟨?_, hRestHeader.trans hHeader, hRestIncoming.trans hIncoming, ?_, ?_⟩
      · rw [hRestAssets, hAssets, List.filter_filter]
        apply List.filter_congr
        intro row _
        simp [Bool.and_comm]
      · rw [List.length_cons]
        omega
      · intro hFree
        exact (hRestTables (hKeys ▸ hFree)).trans (hTables hFree)

theorem physical_ok {found : Physical} (hOk : physical inspection database selected = .ok found) :
    found.full.assets.rows = database.assets.length ∧
    found.rows = database.assets.filterMap fun row =>
      (chosen selected row).map fun asset => (asset.version, inspection.text (inspection.record row.cells)) := by
  simp only [physical, bind_ok, pure_ok] at hOk
  obtain ⟨_, _, rfl⟩ := hOk
  refine ⟨?_, rfl⟩
  simp [tableDigest]

/-- The digests look at the names of the selected prompts only. -/
theorem physical_congr {other : List Candidate} (hSame : ∀ row, (chosen selected row).map (fun a => (a.version, a.rowId)) =
    (chosen other row).map fun a => (a.version, a.rowId)) :
    physical inspection database selected = physical inspection database other := by
  have hCheck : ∀ row : AssetRow, (chosen selected row).forM (checkIdentity row) =
      (chosen other row).forM (checkIdentity row) := by
    intro row
    have hRow := hSame row
    cases hFirst : chosen selected row with
    | none =>
        cases hOther : chosen other row with
        | none => rfl
        | some _ =>
            rw [hFirst, hOther] at hRow
            cases hRow
    | some _ =>
        cases hOther : chosen other row with
        | none =>
            rw [hFirst, hOther] at hRow
            cases hRow
        | some _ =>
            rw [hFirst, hOther] at hRow
            obtain ⟨_, hId⟩ := Prod.mk.inj (Option.some.inj hRow)
            simp only [Option.forM, checkIdentity, hId]
  have hNone : ∀ row, (chosen selected row).isNone = (chosen other row).isNone := by
    intro row
    have hRow := congrArg Option.isNone (hSame row)
    simpa using hRow
  have hNamed : ∀ row : AssetRow, (chosen selected row).map (fun asset =>
      (asset.version, inspection.text (inspection.record row.cells))) = (chosen other row).map fun asset =>
      (asset.version, inspection.text (inspection.record row.cells)) := by
    intro row
    have hRow := congrArg (Option.map fun pair : String × Nat =>
      (pair.1, inspection.text (inspection.record row.cells))) (hSame row)
    simpa [Option.map_map, Function.comp_def] using hRow
  unfold physical
  simp only [hCheck, hNone, hNamed]

/-- What an inventory was taken from. -/
structure Captured (inspection : Inspection) (database : Database) (inventory : Inventory) (selected : List Candidate)
    (found : Physical) : Prop where
  source : inventory.source = database.header
  foreignKeys : inventory.foreignKeys = incomingKeys database
  valid : inspection.schemaValid database.header = true ∧ inspection.visible database.header database.incoming = true
  free : selected ≠ [] → (incomingKeys database).any (·.2) = false
  physical : physical inspection database selected = .ok found
  manifests : inventory.physicalManifest = found.full ∧ inventory.protectedManifest = found.kept
  named : List.Forall₂ (fun asset named => ∃ sha256, dict (·.1) found.rows asset.version = some sha256 ∧
    { asset with nativeRowSha256 := sha256.2 } = named) selected inventory.candidates

theorem capture_ok (hOk : capture inspection database = .ok inventory) :
    ∃ selected found, Captured inspection database inventory selected found := by
  simp only [capture, bind_ok, require_ok, exists_const] at hOk
  obtain ⟨_, hValid, hVisible, assets, _, found, hFound, named, hNamed, hInventory⟩ := hOk
  rw [pure_ok] at hInventory
  subst hInventory
  refine ⟨_, found, rfl, rfl, ⟨hValid, hVisible⟩, ?_, hFound, ⟨rfl, rfl⟩, ?_⟩
  · intro hSome
    obtain ⟨asset, hAsset⟩ := List.exists_mem_of_ne_nil _ hSome
    exact (of_decide_eq_true (List.mem_filter.mp hAsset).2).2.2.2
  · refine ((mapM_ok _ _ _).mp hNamed).imp fun asset named hOne => ?_
    simp only [bind_ok, demand_ok, pure_ok] at hOne
    exact hOne

variable {found : Physical}

theorem exists_of_forall₂ {α β : Type} {related : α → β → Prop} {items : List α} {results : List β}
    (h : List.Forall₂ related items results) {result : β} (hMem : result ∈ results) :
    ∃ item ∈ items, related item result := by
  induction h with
  | nil => cases hMem
  | cons hFirst _ ih =>
      rcases List.mem_cons.mp hMem with rfl | hRest
      · exact ⟨_, List.mem_cons_self, hFirst⟩
      · obtain ⟨item, hItem, hRelated⟩ := ih hRest
        exact ⟨item, List.mem_cons_of_mem _ hItem, hRelated⟩

/-- A candidate carries the digest of the row that it was selected for. -/
theorem Captured.named_row (h : Captured inspection database inventory selected found) {named : Candidate}
    (hNamed : named ∈ inventory.candidates) :
    dict (·.1) found.rows named.version = some (named.version, named.nativeRowSha256) := by
  obtain ⟨asset, _, sha256, hSha, rfl⟩ := exists_of_forall₂ h.named hNamed
  rw [hSha]
  exact congrArg some (Prod.ext (dict_some hSha).2 rfl)

/-- Every digested row belongs to a candidate. -/
theorem Captured.row_named (h : Captured inspection database inventory selected found) {entry : String × String}
    (hEntry : entry ∈ found.rows) : ∃ named ∈ inventory.candidates, named.version = entry.1 := by
  rw [(physical_ok h.physical).2] at hEntry
  obtain ⟨row, _, hRow⟩ := List.mem_filterMap.mp hEntry
  obtain ⟨asset, hChosen, rfl⟩ := Option.map_eq_some_iff.mp hRow
  obtain ⟨named, hNamed, sha256, _, rfl⟩ := exists_of_forall₂ h.named.flip (chosen_some hChosen).1
  exact ⟨_, hNamed, rfl⟩

theorem Captured.candidates_ne_nil (h : Captured inspection database inventory selected found)
    (hCandidates : inventory.candidates ≠ []) : selected ≠ [] := by
  rintro rfl
  exact hCandidates (List.forall₂_nil_left_iff.mp h.named)

/-- The candidates of the inventory choose the same rows. -/
theorem Captured.chosen_named (h : Captured inspection database inventory selected found) (row : AssetRow) :
    (chosen selected row).map (fun a => (a.version, a.rowId)) =
      (chosen inventory.candidates row).map fun a => (a.version, a.rowId) := by
  have hKeys : ∀ {first named : List Candidate} (key : String × String), List.Forall₂ (fun asset named =>
      asset.templateId = named.templateId ∧ asset.version = named.version ∧ asset.rowId = named.rowId) first named →
      (lookup (fun asset => (asset.templateId, asset.version)) first key).map (fun a => (a.version, a.rowId)) =
        (lookup (fun asset => (asset.templateId, asset.version)) named key).map fun a => (a.version, a.rowId) := by
    intro first named key hAll
    induction hAll with
    | nil => rfl
    | cons hOne _ ih =>
        obtain ⟨hTemplate, hVersion, hId⟩ := hOne
        simp only [lookup, List.find?_cons, hTemplate, hVersion] at ih ⊢
        cases decide (_ = key) with
        | true => simp only [Option.map_some, hVersion, hId]
        | false => exact ih
  unfold chosen
  split
  · refine hKeys _ (List.rel_reverse (h.named.imp ?_))
    rintro asset named ⟨sha256, _, rfl⟩
    exact ⟨rfl, rfl, rfl⟩
  · rfl

end Snapshot

end PromptRetirement

end QsAi
