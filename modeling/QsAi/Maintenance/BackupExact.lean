import QsAi.Maintenance.BackupRoundTrip

/-! The exactness of a backup. What a snapshot writes is scanned and restored as it
was written, and what is scanned can only be changed in the spelling of its cells. -/
namespace QsAi

open Guarded PyJson TextEncoding BigEndian SchemaRefactor

namespace Backup

variable {sha : Sha256} {contract : Contract}

/-! Written rows. -/

/-- A row that was written can only be read as itself. -/
theorem readRow_rowRecord {size : Nat} {row found : Row} (h : readRow size (written (rowRecord row)) = .ok found) :
    found = row := by
  obtain ⟨-, -, values, hValues, hDecode⟩ := readRow_ok.mp h
  rw [written_lookup (rowRecord_distinct row), show (rowRecord row).lookup "values" = some (encode row) from rfl,
    Option.map_some, sortKeys_encode] at hValues
  obtain rfl := Option.some.inj hValues
  obtain ⟨items, hItems, rfl, -⟩ := decode_ok.mp hDecode
  obtain rfl := Value.array.inj hItems
  rw [List.length_map, decode_encode] at hDecode
  exact (Except.ok.inj hDecode).symm

theorem tableRecords_row {table : Content} {record : List (String × Value)} (hMem : record ∈ tableRecords sha table)
    (hKind : isKind (written record) "row" = true) : ∃ row, record = rowRecord row := by
  rcases List.mem_cons.mp hMem with rfl | hMem
  · have hTable : isKind (written (tableRecord table.1)) "table" = true :=
      isKind_written (by simp only [tableRecord, List.map_cons, List.map_nil]; decide) rfl
    exact absurd (isKind_unique hKind hTable) (by decide)
  rcases List.mem_append.mp hMem with hRow | hEnd
  · obtain ⟨row, -, rfl⟩ := List.mem_map.mp hRow
    exact ⟨row, rfl⟩
  · rw [List.mem_singleton.mp hEnd] at hKind
    exact absurd (isKind_unique hKind (isKind_written (endRecord_distinct table.1 table.2) rfl)) (by decide)

namespace Emission

variable {source : Source} {result : Written} {order : List String} {header footer : List (String × Value)} {lines : List Bytes}
  (h : Emission sha contract source result order header footer lines)

include h

theorem row {record : Record} (hMem : record ∈ (emitted sha contract source order header footer).map written)
    (hKind : isKind record "row" = true) : ∃ row, record = written (rowRecord row) := by
  obtain ⟨fields, hFields, rfl⟩ := List.mem_map.mp hMem
  rcases List.mem_cons.mp hFields with rfl | hFields
  · exact absurd (isKind_unique hKind (validateHeader_kind h.form.valid)) (by decide)
  rcases List.mem_append.mp hFields with hFields | hLast
  · obtain ⟨table, -, hRecord⟩ := List.mem_flatMap.mp hFields
    obtain ⟨row, rfl⟩ := tableRecords_row hRecord hKind
    exact ⟨row, rfl⟩
  · rw [List.mem_singleton.mp hLast] at hKind
    exact absurd (isKind_unique hKind (checkFooter_kind h.form.closed)) (by decide)

/-- The cells of a backup are spelled in one way. -/
theorem spelled {first second : Record} (hFirst : first ∈ (emitted sha contract source order header footer).map written)
    (hSecond : second ∈ (emitted sha contract source order header footer).map written) (hSame : SameRecord first second) :
    first = second := by
  obtain rfl | ⟨size, row, hRow, hOther⟩ := hSame
  · rfl
  · obtain ⟨row', rfl⟩ := h.row hFirst (readRow_ok.mp hRow).2.1
    obtain ⟨row'', rfl⟩ := h.row hSecond (readRow_ok.mp hOther).2.1
    rw [← readRow_rowRecord hRow, ← readRow_rowRecord hOther]

/-- What is accepted of the records of a backup is the backup. -/
theorem unchanged {others : List Record} {header' footer' : Record} {found : List Content}
    (hPart : others ⊆ (emitted sha contract source order header footer).map written)
    (hScan : scan sha contract (others.map .ok) = .ok (header', footer'))
    (hRestored : restored contract header' footer' (others.map .ok) = .ok found)
    (hApart : Apart sha (contents contract source order) found) :
    others = (emitted sha contract source order header footer).map written := by
  obtain ⟨layout, order', found', hForm⟩ := scan_ok.mp hScan
  rw [hForm.inserted fun record hMem => h.held record (hPart hMem)] at hRestored
  obtain rfl := Except.ok.inj hRestored
  obtain ⟨hSame, -⟩ := h.form.same hForm h.held (fun record hMem => .inr (hPart hMem)) hApart
  refine (List.ext_getElem hSame.length_eq fun i hi hi' => ?_).symm
  exact h.spelled (List.getElem_mem hi) (hPart (List.getElem_mem hi')) (hSame.get hi hi')

end Emission

/-- A backup that was written is scanned and restored as the snapshot it was written
from; it is not scanned any more when a part of it is missing, and no other sequence
of its records is. What is scanned is a header, every table of its layout with its
rows after the tables that it refers to, and a footer; another backup made of its
records, rows at will, holds the same rows in every place. -/
theorem backup_stream_exact (sha : Sha256) (contract : Contract) :
    (∀ (source : Source) (result : Written), backup sha contract source = .ok result →
      ∃ (order : List String) (header footer : Record) (sequence : List Record),
        creationOrder (templates contract source.layout) = .ok order ∧
        records result.stream = sequence.map .ok ∧ scan sha contract (records result.stream) = .ok (header, footer) ∧
        equal (.object header) result.header = true ∧ equal (.object footer) result.footer = true ∧
        restored contract header footer (records result.stream) = .ok (contents contract source order) ∧
        (∀ count < result.stream.length, ∀ accepted, scan sha contract (records (result.stream.take count)) ≠ .ok accepted) ∧
        ∀ (others : List Record) (header' footer' : Record) (found : List Content), others ⊆ sequence →
          scan sha contract (others.map .ok) = .ok (header', footer') →
          restored contract header' footer' (others.map .ok) = .ok found →
          Apart sha (contents contract source order) found → others = sequence) ∧
      ∀ (reader : List (Outcome Record)) (header footer : Record), scan sha contract reader = .ok (header, footer) →
        ∃ (sequence : List Record) (layout : Storage) (order : List String) (found : List Content), reader = sequence.map .ok ∧
          Form sha contract sequence header footer layout order found ∧
          order.Perm ((templates contract layout).map (·.name)) ∧
          (∀ template ∈ templates contract layout, ∃ before after, order = before ++ template.name :: after ∧
            template.parents ⊆ before) ∧
          ((∀ record ∈ sequence, Held record) → restored contract header footer reader = .ok found ∧
            ∀ (others : List Record) (header' footer' : Record) (found' : List Content), (∀ record ∈ others, Held record) →
              (∀ record ∈ others, isKind record "row" = true ∨ record ∈ sequence) →
              scan sha contract (others.map .ok) = .ok (header', footer') →
              restored contract header' footer' (others.map .ok) = .ok found' → Apart sha found found' →
              List.Forall₂ SameRecord sequence others ∧ found = found') := by
  refine ⟨fun source result hBackup => ?_, fun reader header footer hScan => ?_⟩
  · obtain ⟨order, header, footer, lines, hEmission⟩ := backup_emission hBackup
    have hScan := scan_ok.mpr ⟨_, _, _, hEmission.form⟩
    have hRestored := hEmission.form.inserted hEmission.held
    rw [← hEmission.records] at hScan hRestored
    have hFields : ∀ fields ∈ emitted sha contract source order header footer,
        equal (.object (written fields)) (dictionary fields) = true := fun fields hMem =>
      equal_sortKeys _ (hEmission.portable fields hMem).wellFormed
    refine ⟨order, written header, written footer, _, hEmission.ordered, hEmission.records, hScan, ?_, ?_, hRestored,
      fun count hCount => hEmission.cut hCount, fun others header' footer' found hPart hOther hFound hApart =>
        hEmission.unchanged hPart hOther hFound hApart⟩
    · rw [hEmission.head]
      exact hFields header List.mem_cons_self
    · rw [hEmission.foot]
      exact hFields footer (List.mem_cons_of_mem _ (List.mem_append_right _ List.mem_cons_self))
  · obtain ⟨sequence, layout, order, found, rfl, hForm⟩ := scan_reader.mp hScan
    obtain ⟨hPerm, hParents⟩ := creationOrder_ok hForm.ordered
    refine ⟨sequence, layout, order, found, rfl, hForm, hPerm, hParents, fun hHeld => ⟨hForm.inserted hHeld, ?_⟩⟩
    intro others header' footer' found' hOthers hPart hOther hFound hApart
    obtain ⟨layout', order', rows, hForm'⟩ := scan_ok.mp hOther
    rw [hForm'.inserted hOthers] at hFound
    obtain rfl := Except.ok.inj hFound
    exact hForm.same hForm' hHeld hPart hApart

/-! A layout of the two tables that number their rows. -/

theorem hexText_ascii (bytes : Bytes) : ∀ c ∈ hexText bytes, c < 128 := by
  intro c hc
  have hPlain := hexText_plain bytes c hc
  simp only [plainCode, Bool.and_eq_true, decide_eq_true_eq] at hPlain
  omega

/-- A digest without collisions. -/
def hexSha : Sha256 := ⟨hexText, hexText_ascii⟩

theorem hexSha_injective : Function.Injective hexSha.hexdigest := by
  intro first second hSame
  have hBytes := congrArg fromhex (show hexText first = hexText second from hSame)
  rw [fromhex_hexText, fromhex_hexText] at hBytes
  exact Option.some.inj hBytes

theorem organizationId_distinct : (List.map (·.name) [Column.mk "organization_id" false none false]).Nodup :=
  List.nodup_singleton _

def lockTable (name : String) : Template := ⟨name, [⟨"organization_id", false, none, false⟩], [], organizationId_distinct⟩

theorem lockLegacy_distinct : ((autoIncrementTables.map lockTable ++ [alembicVersion]).map (·.name)).Nodup := by decide

theorem lockFinal_distinct : ((([] : List Template) ++ [alembicVersion]).map (·.name)).Nodup := by decide

def lockContract : Contract := ⟨autoIncrementTables.map lockTable, [], [], [], lockLegacy_distinct, lockFinal_distinct⟩

def lockTables : List TableMetadata :=
  autoIncrementTables.map (⟨·, "utf8mb4_bin", "utf8mb4", some 7, "CREATE TABLE", []⟩) ++
    [⟨versionTable, "utf8mb4_bin", "utf8mb4", none, "CREATE TABLE", [("version_num", ("utf8mb4", "utf8mb4_bin"))]⟩]

theorem lockTables_distinct : (lockTables.map (·.name)).Nodup := by decide

def lockState : Metadata :=
  ⟨"00000000-0000-4000-8000-000000000000", "utf8mb4", "utf8mb4_bin", "", "2026-01-01T00:00:00+00:00", lockTables, lockTables_distinct⟩

/-- A snapshot in which one table has two rows, the second of them NULL. -/
def lockSource : Source where
  schema := "qs_ai"
  layout := .old
  before := lockState
  after := lockState
  rows name := if name = "evaluation_admission_locks" then [fun _ => some [65], fun _ => none] else []
  manifest _ := (0, "")

theorem lockSource_written : (backup hexSha lockContract lockSource).toBool = true := by decide +kernel

theorem lockSource_exact : ∃ result header footer order layout scanned, backup hexSha lockContract lockSource = .ok result ∧
    scan hexSha lockContract (records result.stream) = .ok (header, footer) ∧
    restored lockContract header footer (records result.stream) = .ok (contents lockContract lockSource order) ∧
    List.Perm scanned ((templates lockContract layout).map (·.name)) := by
  obtain ⟨result, hBackup⟩ := exists_ok lockSource_written
  obtain ⟨order, header, footer, -, -, -, hScan, -, -, hRestored, -⟩ :=
    (backup_stream_exact hexSha lockContract).1 lockSource result hBackup
  obtain ⟨-, layout, scanned, -, -, -, hPerm, -⟩ := (backup_stream_exact hexSha lockContract).2 _ _ _ hScan
  exact ⟨result, header, footer, order, layout, scanned, hBackup, hScan, hRestored, hPerm⟩

/-- A row of one cell, by the spelling of the cell. -/
def spelledRow (cell : String) : Record := [(text "type", word "row"), (text "values", .array [word cell])]

def asRecord (fields : List (String × Value)) : Record := fields.map fun field => (text field.1, field.2)

/-- The records of a backup in which one table has two rows with the cell `A`. -/
def spelledBackup (first second : Record) : List Record :=
  let cells : List Row := [[some [65]], [some [65]]]
  let header := (capture hexSha lockContract .old "qs_ai" lockState).toOption.getD []
  let physical := physicalManifest hexSha
    [(versionTable, []), ("evaluation_admission_locks", cells), ("participant_admission_locks", [])]
  let manifest := dictionary (autoIncrementTables.map fun name => (name, .null))
  [asRecord header, asRecord (tableRecord versionTable), asRecord (endRecord hexSha versionTable []),
   asRecord (tableRecord "evaluation_admission_locks"), first, second,
   asRecord (endRecord hexSha "evaluation_admission_locks" cells), asRecord (tableRecord "participant_admission_locks"),
   asRecord (endRecord hexSha "participant_admission_locks" []),
   asRecord [("type", word "footer"), ("physical_manifest", physical), ("manifest", manifest)]]

/-- Two rows that spell one cell in two ways can be exchanged. -/
theorem spelling_exchanged : Function.Injective hexSha.hexdigest ∧ spelledRow "QQ==" ≠ spelledRow "QR==" ∧
    (scan hexSha lockContract ((spelledBackup (spelledRow "QQ==") (spelledRow "QR==")).map .ok)).toBool = true ∧
    (scan hexSha lockContract ((spelledBackup (spelledRow "QR==") (spelledRow "QQ==")).map .ok)).toBool = true := by
  refine ⟨hexSha_injective, fun hSame => ?_, ?_, ?_⟩
  · have hCell := congrArg (isRecord · [("type", word "row"), ("values", .array [word "QQ=="])]) hSame
    revert hCell
    decide +kernel
  · decide +kernel
  · decide +kernel

end Backup

end QsAi
