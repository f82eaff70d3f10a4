import QsAi.Maintenance.BackupStream

/-! What is written is scanned. The reader meets the records with their keys
sorted; no check of a backup looks at the order of keys. -/
namespace QsAi

open Guarded PyJson TextEncoding PercentEncoding BigEndian SchemaRefactor

namespace Backup

variable {sha : Sha256} {contract : Contract}

/-! Checks of sorted values. -/

theorem item_sorted {value found : Value} {name : String} (hWell : value.WellFormed) (h : value.item name = .ok found) :
    (sortKeys value).item name = .ok (sortKeys found) := by
  rw [item_sortKeys hWell, h]
  rfl

theorem get_sorted {value : Value} {found : Option Value} {name : String} (hWell : value.WellFormed)
    (h : value.get name = .ok found) : (sortKeys value).get name = .ok (found.map sortKeys) := by
  cases value with
  | object fields =>
      obtain ⟨sorted, hSorted, hPerm⟩ := sortKeys_object fields
      obtain rfl := Except.ok.inj h
      rw [hSorted, Value.get, sortKeys_lookup (wellFormed_object.mp hWell).1 hPerm]
  | _ => cases h

theorem fullmatch_sorted (pattern : Text → Bool) (message : String) (value : Value) :
    fullmatch pattern message (sortKeys value) = fullmatch pattern message value := by
  rw [fullmatch, fullmatch, asText_sortKeys]

theorem storage_sorted (value : Value) : storage (sortKeys value) = storage value := by
  rw [storage, storage, isText_sortKeys, isText_sortKeys]

theorem isNames_sorted (value : Value) (names : List Text) : isNames (sortKeys value) names = isNames value names :=
  sortKeys_blind (isNames · names) (fun items => by rw [isNames, isNames, mapM_asText_sortKeys]) (fun _ _ _ => rfl) value

/-- The names of a dictionary are those of its keys. -/
theorem sameNames_object (fields : List (Text × Value)) (names : List Text) :
    sameNames (.object fields) names = .ok (decide (fields.map (·.1) ⊆ names ∧ names ⊆ fields.map (·.1))) := by
  have hHashable : ((fields.map fun field => Value.string field.1).all Value.hashable) = true := by
    rw [List.all_map, List.all_eq_true]
    exact fun _ _ => rfl
  have hTexts : (fields.map fun field => Value.string field.1).mapM Value.asText = some (fields.map (·.1)) := by
    rw [mapM_asText, List.map_map]
    rfl
  rw [sameNames, Value.elements, ok_bind, require_bind_pos hHashable, hTexts]
  rfl

theorem sameNames_sorted (value : Value) (names : List Text) : sameNames (sortKeys value) names = sameNames value names := by
  refine sortKeys_blind (sameNames · names) (fun items => ?_) (fun fields sorted hPerm => ?_) value
  · have hAll : (items.map sortKeys).all Value.hashable = items.all Value.hashable := by
      rw [List.all_map]
      exact congrArg (List.all items) (funext hashable_sortKeys)
    unfold sameNames
    rw [Value.elements, Value.elements, ok_bind, ok_bind, hAll, mapM_asText_sortKeys]
  · have hKeys := sortKeys_keys hPerm
    rw [sameNames_object, sameNames_object]
    congr 2
    refine propext (and_congr ?_ ?_)
    · exact ⟨fun h name hName => h (hKeys.mem_iff.mpr hName), fun h name hName => h (hKeys.mem_iff.mp hName)⟩
    · exact ⟨fun h name hName => hKeys.mem_iff.mp (h hName), fun h name hName => hKeys.mem_iff.mpr (h hName)⟩

theorem isDictionary_sorted (value : Value) : isDictionary (sortKeys value) = isDictionary value :=
  sortKeys_blind isDictionary (fun _ => rfl) (fun _ _ _ => rfl) value

theorem isCounter_sorted (value : Value) : isCounter (sortKeys value) = isCounter value :=
  sortKeys_blind isCounter (fun _ => rfl) (fun _ _ _ => rfl) value

theorem archived_sorted (value : Value) : archived (sortKeys value) = archived value :=
  sortKeys_blind archived (fun _ => rfl) (fun _ _ _ => rfl) value

/-! Headers. -/

theorem checkCollation_sorted {collations charsets : Value} (hCollations : collations.WellFormed)
    (hCharsets : charsets.WellFormed) (name : String) (column : Column) :
    checkCollation name (sortKeys collations) (sortKeys charsets) column = checkCollation name collations charsets column := by
  rw [checkCollation, checkCollation, item_sortKeys hCollations, item_sortKeys hCharsets]
  cases collations.item column.name with
  | error fault => rfl
  | ok collation =>
      cases charsets.item column.name with
      | error fault => rfl
      | ok charset =>
          show (identifier (sortKeys collation) >>= fun collation => identifier (sortKeys charset) >>= _) = _
          rw [identifier, identifier, fullmatch_sorted, fullmatch_sorted]
          rfl

theorem checkStructure_sorted {table : Value} (hWell : table.WellFormed) (h : checkStructure sha table = .ok ()) :
    checkStructure sha (sortKeys table) = .ok () := by
  simp only [checkStructure, bind_ok, native_ok, refuseUnless_ok] at h ⊢
  obtain ⟨sql, hSql, word, hWord, expected, hExpected, encoded, hEncoded, hDigest⟩ := h
  exact ⟨_, item_sorted hWell hSql, word, (archived_sorted sql).trans hWord, _, item_sorted hWell hExpected, encoded, hEncoded,
    (isText_sortKeys expected _).trans hDigest⟩

theorem validateTable_sorted {tables : Value} (hWell : tables.WellFormed) {template : Template} {physical : Collations}
    (h : validateTable sha tables template = .ok physical) : validateTable sha (sortKeys tables) template = .ok physical := by
  simp only [validateTable, bind_ok, native_ok, refuseUnless_ok, pure_ok] at h ⊢
  obtain ⟨table, hTable, columns, hColumns, -, hCaptured, generated, hGenerated, -, hNames, collations, hCollations, bound, hBound,
    -, hTrue, h⟩ := h
  obtain ⟨charsets, hCharsets, bound', hBound', -, hTrue', found, hFound, collation, hCollation, word, hWord, h⟩ := h
  obtain ⟨charset, hCharset, word', hWord', -, hPrefix, counter, hCounter, -, hFloor, ⟨⟩, hStructure, hPhysical⟩ := h
  have hInner := hWell.item hTable
  refine ⟨_, item_sorted hWell hTable, _, item_sorted hInner hColumns, ⟨⟩, (isNames_sorted _ _).trans hCaptured, _,
    item_sorted hInner hGenerated, ⟨⟩, (isNames_sorted _ _).trans hNames, _, item_sorted hInner hCollations, bound,
    (sameNames_sorted _ _).trans hBound, ⟨⟩, hTrue, _, item_sorted hInner hCharsets, bound',
    (sameNames_sorted _ _).trans hBound', ⟨⟩, hTrue', found, ?_, _, item_sorted hInner hCollation, word,
    (fullmatch_sorted _ _ _).trans hWord, _, item_sorted hInner hCharset, word', (fullmatch_sorted _ _ _).trans hWord', ⟨⟩,
    hPrefix, _, item_sorted hInner hCounter, ⟨⟩, (isCounter_sorted _).trans hFloor, ⟨⟩, checkStructure_sorted hInner hStructure,
    hPhysical⟩
  have hSame := funext (checkCollation_sorted (hInner.item hCollations) (hInner.item hCharsets) template.name)
  rw [hSame]
  exact hFound

theorem checkLegacyTable_sorted {tables : Value} (hWell : tables.WellFormed) {template : Template}
    (h : checkLegacyTable tables template = .ok ()) : checkLegacyTable (sortKeys tables) template = .ok () := by
  simp only [checkLegacyTable, bind_ok, native_ok, refuseUnless_ok] at h ⊢
  obtain ⟨table, hTable, collations, hCollations, bound, hBound, -, hTrue, hChecked⟩ := h
  have hInner := hWell.item hTable
  refine ⟨_, item_sorted hWell hTable, _, item_sorted hInner hCollations, bound, (sameNames_sorted _ _).trans hBound, ⟨⟩, hTrue, ?_⟩
  cases collations with
  | object fields =>
      obtain ⟨sorted, hSorted, hPerm⟩ := sortKeys_object fields
      rw [checkLegacyCollations, forM_ok] at hChecked
      rw [hSorted, checkLegacyCollations, forM_ok]
      intro field hMem
      obtain ⟨before, hBefore, rfl⟩ := List.mem_map.mp (hPerm.mem_iff.mp hMem)
      have hField := hChecked before hBefore
      rw [checkLegacyCollation] at hField ⊢
      rw [asText_sortKeys]
      exact hField
  | _ => cases hChecked

/-- A header is accepted in any order of its keys. -/
theorem validateHeader_sorted {header : Value} (hWell : header.WellFormed) {layout : Storage}
    (h : validateHeader sha contract header = .ok layout) : validateHeader sha contract (sortKeys header) = .ok layout := by
  simp only [validateHeader, bind_ok, native_ok, refuseUnless_ok, pure_ok] at h ⊢
  obtain ⟨kind, hKind, -, hHeader, version, hVersion, -, hFormat, schema, hSchema, name, hName, uuid, hUuid, id, hId, h⟩ := h
  obtain ⟨head, hHead, found, hFound, digest, hDigest, -, hContract, charset, hCharset, word, hWord, collation, hCollation, h⟩ := h
  obtain ⟨word', hWord', mode, hMode, flags, hFlags, tables, hTables, -, hDictionary, bound, hBound, -, hTrue, h⟩ := h
  obtain ⟨physical, hPhysical, ⟨⟩, hCollations, hLayout⟩ := h
  have hInner := hWell.item hTables
  have hText : ∀ (value : Option Value) (kind : Text), (value.map sortKeys).any (·.isText kind) = value.any (·.isText kind) := by
    intro value kind
    cases value with
    | none => rfl
    | some value => exact isText_sortKeys value kind
  refine ⟨kind.map sortKeys, get_sorted hWell hKind, ⟨⟩, (hText _ _).trans hHeader, version.map sortKeys,
    get_sorted hWell hVersion, ⟨⟩, (hText _ _).trans hFormat, _, item_sorted hWell hSchema, name,
    (fullmatch_sorted _ _ _).trans hName, _, item_sorted hWell hUuid, id, (fullmatch_sorted _ _ _).trans hId, _,
    item_sorted hWell hHead, found, (storage_sorted head).trans hFound, _, item_sorted hWell hDigest, ⟨⟩,
    (isText_sortKeys _ _).trans hContract, _, item_sorted hWell hCharset, word, (fullmatch_sorted _ _ _).trans hWord, _,
    item_sorted hWell hCollation, word', (fullmatch_sorted _ _ _).trans hWord', _, item_sorted hWell hMode, flags,
    (fullmatch_sorted _ _ _).trans hFlags, _, item_sorted hWell hTables, ⟨⟩, (isDictionary_sorted _).trans hDictionary, bound,
    (sameNames_sorted _ _).trans hBound, ⟨⟩, hTrue, physical, ?_, ⟨⟩, ?_, hLayout⟩
  · rw [mapM_ok] at hPhysical ⊢
    exact hPhysical.imp fun template found hTable => validateTable_sorted hInner hTable
  · cases found with
    | old =>
        rw [validateCollations, validateColumnCollations, forM_ok] at hCollations ⊢
        exact fun template hMem => checkLegacyTable_sorted hInner (hCollations template hMem)
    | new => exact hCollations

/-! What is captured can be written. -/

theorem portable_word (value : String) : Portable (word value) := .string (scalarText_text value)

theorem portable_digest (bytes : Bytes) : Portable (.string (sha.hexdigest bytes)) := .string (scalarText_ascii (sha.ascii bytes))

theorem portable_counter (counter : Option Nat) : Portable (counterValue counter) := by
  cases counter with
  | none => exact .null
  | some counter => exact .int counter

theorem portable_sortNames (names : List String) : Portable (namesValue (sortNames names)) := by
  refine .array fun item hMem => ?_
  obtain ⟨name, hName, rfl⟩ := List.mem_map.mp hMem
  obtain ⟨source, -, rfl⟩ := List.mem_map.mp ((List.mem_insertionSort _).mp hName)
  exact .string (scalarText_text source)

theorem portable_physicalEntry (rows : List Row) : Portable (dictionary (physicalEntry sha rows)) := by
  refine .dictionary (by simp only [physicalEntry, List.map_cons, List.map_nil]; decide) ?_
  rw [physicalEntry, List.forall_mem_cons, List.forall_mem_singleton]
  exact ⟨.int _, portable_digest _⟩

/-- A table is captured under its own name. -/
theorem captureTable_portable {specs : List Template} {table : TableMetadata} {entry : String × Value}
    (h : captureTable sha specs table = .ok entry) : entry.1 = table.name ∧ Portable entry.2 := by
  simp only [captureTable, bind_ok, native_ok, demand_ok, pure_ok] at h
  obtain ⟨spec, -, bindings, hBindings, encoded, -, rfl⟩ := h
  refine ⟨rfl, ?_⟩
  have hNames : bindings.map (·.1) = spec.characters.map (·.name) := by
    rw [mapM_ok] at hBindings
    generalize spec.characters = columns at hBindings
    induction hBindings with
    | nil => rfl
    | cons hFirst _ ih =>
        simp only [bind_ok, native_ok, demand_ok, pure_ok] at hFirst
        obtain ⟨found, -, rfl⟩ := hFirst
        rw [List.map_cons, List.map_cons, ih]
  have hDistinct : (bindings.map (·.1)).Nodup := hNames ▸ spec.distinct.sublist (List.filter_sublist.map _)
  have hBound : ∀ side : String × String → String,
      Portable (dictionary (bindings.map fun binding => (binding.1, word (side binding.2)))) := by
    intro side
    refine .dictionary ?_ fun field hMem => ?_
    · rw [List.map_map]
      exact hDistinct
    · obtain ⟨binding, -, rfl⟩ := List.mem_map.mp hMem
      exact portable_word _
  refine .dictionary (by simp only [List.map_cons, List.map_nil]; decide) ?_
  simp only [List.forall_mem_cons, List.not_mem_nil, false_imp_iff, implies_true, and_true]
  exact ⟨portable_sortNames _, portable_sortNames _, hBound (·.2), hBound (·.1), portable_word _, portable_word _,
    portable_counter _, portable_word _, portable_digest _⟩

theorem capture_portable {layout : Storage} {schema : String} {metadata : Metadata} {header : List (String × Value)}
    (h : capture sha contract layout schema metadata = .ok header) : Portable (dictionary header) := by
  simp only [capture, bind_ok, pure_ok] at h
  obtain ⟨tables, hTables, -, -, rfl⟩ := h
  rw [mapM_ok] at hTables
  have hNames : tables.map (·.1) = metadata.tables.map (·.name) := by
    generalize metadata.tables = captured at hTables
    induction hTables with
    | nil => rfl
    | cons hFirst _ ih => rw [List.map_cons, List.map_cons, ih, (captureTable_portable hFirst).1]
  have hPortable : ∀ entry ∈ tables, Portable entry.2 := by
    intro entry hMem
    obtain ⟨table, -, hTable⟩ := mem_mapM ((mapM_ok _ _ _).mpr hTables) hMem
    exact (captureTable_portable hTable).2
  refine .dictionary (by simp only [List.map_cons, List.map_nil]; decide) ?_
  simp only [List.forall_mem_cons, List.not_mem_nil, false_imp_iff, implies_true, and_true]
  refine ⟨portable_word _, portable_word _, portable_word _, portable_word _, portable_word _, ?_, portable_word _,
    portable_word _, portable_word _, portable_word _, .dictionary (hNames ▸ metadata.distinct) hPortable⟩
  cases layout with
  | old => exact portable_digest _
  | new => exact portable_digest _

/-- A captured header is valid and names its layout. -/
theorem capture_valid {layout : Storage} {schema : String} {metadata : Metadata} {header : List (String × Value)}
    (h : capture sha contract layout schema metadata = .ok header) :
    validateHeader sha contract (dictionary header) = .ok layout := by
  simp only [capture, bind_ok, pure_ok] at h
  obtain ⟨tables, -, found, hFound, rfl⟩ := h
  obtain ⟨head, hHead, hLayout⟩ := validateHeader_storage hFound
  rw [hFound]
  rw [dictionary, Value.item, lookup_text, demand_ok] at hHead
  obtain rfl : word layout.head.revision = head := Option.some.inj hHead
  cases layout with
  | old => exact hLayout.symm
  | new => exact hLayout.symm

/-! Records that were written. -/

/-- A written record as the reader meets it. -/
def written (fields : List (String × Value)) : Record := Record.sorted (fields.map fun field => (text field.1, field.2))

theorem sortKeys_dictionary (fields : List (String × Value)) : sortKeys (dictionary fields) = .object (written fields) := rfl

theorem written_perm (fields : List (String × Value)) :
    (written fields).Perm ((fields.map fun field => (text field.1, field.2)).map fun field => (field.1, sortKeys field.2)) := by
  rw [written, Record.sorted, sortFields_eq]
  exact List.perm_insertionSort _ _

section Written

variable {fields : List (String × Value)}

theorem dictionary_nodup (hDistinct : (fields.map (·.1)).Nodup) :
    ((fields.map fun field => (text field.1, field.2)).map (·.1)).Nodup := by
  have hKeys := hDistinct.map fun _ _ h => text_inj.mp h
  rw [List.map_map] at hKeys ⊢
  exact hKeys

theorem written_lookup (hDistinct : (fields.map (·.1)).Nodup) (name : String) :
    (written fields).lookup (text name) = (fields.lookup name).map sortKeys := by
  rw [sortKeys_lookup (dictionary_nodup hDistinct) (written_perm fields), lookup_text]

theorem written_keys : ((written fields).map (·.1)).Perm ((fields.map (·.1)).map text) := by
  have hKeys := sortKeys_keys (written_perm fields)
  rw [List.map_map] at hKeys ⊢
  exact hKeys

theorem hasKeys_written : hasKeys (written fields) (fields.map (·.1)) = true := by
  rw [hasKeys, decide_eq_true_eq]
  exact ⟨fun _ hMem => written_keys.mem_iff.mp hMem, fun _ hMem => written_keys.mem_iff.mpr hMem⟩

theorem isKind_written (hDistinct : (fields.map (·.1)).Nodup) {kind : String}
    (hKind : fields.lookup "type" = some (.string (text kind))) : isKind (written fields) kind = true := by
  rw [isKind, written_lookup hDistinct, hKind]
  simp [sortKeys, Value.isText]

theorem isRecord_written (h : Portable (dictionary fields)) : isRecord (written fields) fields = true :=
  equal_sortKeys _ h.wellFormed

end Written

theorem portable_tableRecord (name : String) : Portable (dictionary (tableRecord name)) := by
  refine .dictionary (by simp only [tableRecord, List.map_cons, List.map_nil]; decide) ?_
  rw [tableRecord, List.forall_mem_cons, List.forall_mem_singleton]
  exact ⟨portable_word "table", portable_word name⟩

theorem portable_encode (row : Row) : Portable (encode row) := by
  refine .array fun item hMem => ?_
  obtain ⟨cell, -, rfl⟩ := List.mem_map.mp hMem
  cases cell with
  | none => exact .null
  | some value =>
      refine .string (scalarText_ascii fun c hc => ?_)
      have hPlain := base64Text_plain value c hc
      simp only [plainCode, Bool.and_eq_true, decide_eq_true_eq] at hPlain
      omega

theorem rowRecord_distinct (row : Row) : ((rowRecord row).map (·.1)).Nodup := by
  simp only [rowRecord, List.map_cons, List.map_nil]
  decide

theorem portable_rowRecord (row : Row) : Portable (dictionary (rowRecord row)) := by
  refine .dictionary (rowRecord_distinct row) ?_
  rw [rowRecord, List.forall_mem_cons, List.forall_mem_singleton]
  exact ⟨portable_word "row", portable_encode row⟩

theorem endRecord_distinct (name : String) (rows : List Row) : ((endRecord sha name rows).map (·.1)).Nodup := by
  simp only [endRecord, physicalEntry, List.cons_append, List.nil_append, List.map_cons, List.map_nil]
  decide

theorem portable_endRecord (name : String) (rows : List Row) : Portable (dictionary (endRecord sha name rows)) := by
  refine .dictionary (endRecord_distinct name rows) ?_
  simp only [endRecord, physicalEntry, List.cons_append, List.nil_append, List.forall_mem_cons, List.not_mem_nil,
    false_imp_iff, implies_true, and_true]
  exact ⟨portable_word "end_table", portable_word name, .int _, portable_digest _⟩

theorem sortKeys_encode (row : Row) : sortKeys (encode row) = encode row := by
  rw [encode, sortKeys_array, List.map_map]
  congr 1
  refine List.map_congr_left fun cell _ => ?_
  cases cell <;> rfl

/-- A row is read as it was written. -/
theorem readRow_written (row : Row) : readRow row.length (written (rowRecord row)) = .ok row := by
  rw [readRow_ok]
  refine ⟨hasKeys_written, isKind_written (rowRecord_distinct row) rfl, encode row, ?_, decode_encode row⟩
  rw [written_lookup (rowRecord_distinct row), show (rowRecord row).lookup "values" = some (encode row) from rfl,
    Option.map_some, sortKeys_encode]

theorem rows_written (name : String) {size : Nat} {rows : List Row} (hSize : ∀ row ∈ rows, row.length = size) :
    Rows sha name size ((rows.map rowRecord).map written) (written (endRecord sha name rows)) rows where
  read := by
    rw [List.map_map, List.forall₂_map_left_iff, List.forall₂_same]
    exact fun row hMem => hSize row hMem ▸ readRow_written row
  kind := isKind_written (endRecord_distinct name rows) rfl
  closed := isRecord_written (portable_endRecord name rows)

theorem tables_written {tables : Value} {source : Source} {order : List String}
    (hKnown : ∀ name ∈ order, ∃ template, (templates contract source.layout).find? (·.name == name) = some template ∧
      tableSize tables name = .ok (template.captured.length + template.generated.length)) :
    Tables sha tables order (((contents contract source order).flatMap (tableRecords sha)).map written)
      (contents contract source order) := by
  induction order with
  | nil => exact .nil
  | cons name order ih =>
      obtain ⟨⟨template, hTemplate, hSize⟩, hRest⟩ := List.forall_mem_cons.mp hKnown
      have hContents : contents contract source (name :: order) =
          (name, nativeRows source template) :: contents contract source order := by
        rw [contents, List.filterMap_cons, hTemplate]
        rfl
      have hRows : ∀ row ∈ nativeRows source template, row.length = template.captured.length + template.generated.length := by
        intro row hMem
        obtain ⟨values, -, rfl⟩ := List.mem_map.mp hMem
        rw [List.length_map, List.length_append]
      rw [hContents, List.flatMap_cons, List.map_append, tableRecords, List.map_cons, List.map_append, List.cons_append,
        List.append_assoc]
      exact .cons (isRecord_written (portable_tableRecord name)) hSize (rows_written name hRows) (ih hRest)

theorem isNames_eq {value : Value} {names : List Text} (h : isNames value names = true) :
    value = .array (names.map .string) := by
  cases value with
  | array items =>
      rw [isNames, beq_iff_eq, mapM_asText] at h
      rw [h]
  | _ => cases h

/-- An accepted table has as many columns as its layout. -/
theorem validateTable_size {tables : Value} {template : Template} {physical : Collations}
    (h : validateTable sha tables template = .ok physical) :
    tableSize tables template.name = .ok (template.captured.length + template.generated.length) := by
  simp only [validateTable, bind_ok, native_ok, refuseUnless_ok, pure_ok] at h
  obtain ⟨table, hTable, columns, hColumns, -, hCaptured, generated, hGenerated, -, hNames, -⟩ := h
  obtain rfl := isNames_eq hCaptured
  obtain rfl := isNames_eq hNames
  rw [tableSize, hTable, ok_bind, hColumns, ok_bind, listLength, ok_bind, hGenerated, ok_bind, listLength, ok_bind,
    List.length_map, List.length_map]
  rfl

theorem tableSize_valid {header tables : Value} {layout : Storage} (h : validateHeader sha contract header = .ok layout)
    (hTables : header.item "tables" = .ok tables) {template : Template} (hMem : template ∈ templates contract layout) :
    tableSize tables template.name = .ok (template.captured.length + template.generated.length) := by
  simp only [validateHeader, bind_ok, native_ok, pure_ok] at h
  obtain ⟨_, -, _, -, _, -, _, -, _, -, _, -, _, -, _, -, _, -, found, -, h⟩ := h
  obtain ⟨_, -, _, -, _, -, _, -, _, -, _, -, _, -, _, -, inner, hInner, _, -, _, -, _, -, physical, hPhysical, _, -, rfl⟩ := h
  rw [hTables] at hInner
  obtain rfl := Except.ok.inj hInner
  rw [mapM_ok] at hPhysical
  obtain ⟨i, hi, rfl⟩ := List.getElem_of_mem hMem
  have hLength := hPhysical.length_eq
  exact validateTable_size (hPhysical.get hi (hLength ▸ hi))

theorem manifestEntry_portable {source : Source} {tables : Value} (hTables : Portable tables) {name : String}
    {entry : String × Value} (h : manifestEntry source tables name = .ok entry) : entry.1 = name ∧ Portable entry.2 := by
  have hRows : Portable (.int (source.manifest name).1) := .int _
  have hDigest := portable_word (source.manifest name).2
  rw [manifestEntry] at h
  split at h
  · simp only [bind_ok, native_ok, pure_ok] at h
    obtain ⟨table, hTable, counter, hCounter, rfl⟩ := h
    refine ⟨rfl, .dictionary (by simp only [List.cons_append, List.nil_append, List.map_cons, List.map_nil]; decide) ?_⟩
    simp only [List.cons_append, List.nil_append, List.forall_mem_cons, List.not_mem_nil, false_imp_iff, implies_true, and_true]
    exact ⟨hRows, hDigest, (hTables.item hTable).item hCounter⟩
  · rw [pure_ok] at h
    subst h
    refine ⟨rfl, .dictionary (by simp only [List.map_cons, List.map_nil]; decide) ?_⟩
    simp only [List.forall_mem_cons, List.not_mem_nil, false_imp_iff, implies_true, and_true]
    exact ⟨hRows, hDigest⟩

theorem manifest_keys {source : Source} {tables : Value} (hTables : Portable tables) {names : List String}
    {entries : List (String × Value)} (h : names.mapM (manifestEntry source tables) = .ok entries) :
    entries.map (·.1) = names ∧ ∀ entry ∈ entries, Portable entry.2 := by
  rw [mapM_ok] at h
  induction h with
  | nil => exact ⟨rfl, nofun⟩
  | cons hFirst _ ih =>
      obtain ⟨hName, hPortable⟩ := manifestEntry_portable hTables hFirst
      exact ⟨by rw [List.map_cons, hName, ih.1], List.forall_mem_cons.mpr ⟨hPortable, ih.2⟩⟩

theorem contents_names (source : Source) {order : List String}
    (hKnown : ∀ name ∈ order, ∃ template, (templates contract source.layout).find? (·.name == name) = some template) :
    (contents contract source order).map (·.1) = order := by
  induction order with
  | nil => rfl
  | cons name order ih =>
      obtain ⟨⟨template, hTemplate⟩, hRest⟩ := List.forall_mem_cons.mp hKnown
      rw [contents, List.filterMap_cons, hTemplate]
      exact congrArg (name :: ·) (ih hRest)

theorem portable_physicalManifest {tables : List Content} (hDistinct : (tables.map (·.1)).Nodup) :
    Portable (physicalManifest sha tables) := by
  refine .dictionary ?_ fun field hMem => ?_
  · rw [List.map_map]
    exact hDistinct
  · obtain ⟨table, -, rfl⟩ := List.mem_map.mp hMem
    exact portable_physicalEntry table.2

theorem portable_tableRecords (table : Content) : ∀ record ∈ tableRecords sha table, Portable (dictionary record) := by
  intro record hMem
  rcases List.mem_cons.mp hMem with rfl | hMem
  · exact portable_tableRecord _
  rcases List.mem_append.mp hMem with hMem | hMem
  · obtain ⟨row, -, rfl⟩ := List.mem_map.mp hMem
    exact portable_rowRecord row
  · rw [List.mem_singleton.mp hMem]
    exact portable_endRecord _ _

theorem tableRecords_ne (table : Content) : ∀ record ∈ tableRecords sha table, record ≠ [] := by
  intro record hMem
  rcases List.mem_cons.mp hMem with rfl | hMem
  · exact List.cons_ne_nil _ _
  rcases List.mem_append.mp hMem with hMem | hMem
  · obtain ⟨row, -, rfl⟩ := List.mem_map.mp hMem
    exact List.cons_ne_nil _ _
  · rw [List.mem_singleton.mp hMem]
    exact List.cons_ne_nil _ _

/-- The footer closes the tables that stand before it. -/
theorem checkFooter_written {found : List Content} {entries : List (String × Value)}
    (hPhysical : Portable (physicalManifest sha found)) (hNames : entries.map (·.1) = contract.legacy.map (·.name))
    {footer : List (String × Value)}
    (hFooter : footer = [("type", word "footer"), ("physical_manifest", physicalManifest sha found),
      ("manifest", dictionary entries)]) : checkFooter sha contract found (written footer) = .ok () := by
  have hDistinct : (footer.map (·.1)).Nodup := by
    rw [hFooter]
    simp only [List.map_cons, List.map_nil]
    decide
  have hKeys : hasKeys (written footer) ["type", "physical_manifest", "manifest"] = true := by
    have hAll : hasKeys (written footer) (footer.map (·.1)) = true := hasKeys_written
    rw [hFooter] at hAll ⊢
    exact hAll
  have hLookup : ∀ name, (Value.object (written footer)).item name = demand ((footer.lookup name).map sortKeys) .key := by
    intro name
    rw [Value.item, written_lookup hDistinct]
  have hManifest : sameNames (sortKeys (dictionary entries)) (contract.legacy.map fun template => text template.name) = .ok true := by
    have hSame : (entries.map fun field => (text field.1, field.2)).map (·.1) =
        contract.legacy.map fun template => text template.name := by
      have hTexts := congrArg (List.map text) hNames
      rw [List.map_map, List.map_map] at hTexts
      rw [List.map_map]
      exact hTexts
    rw [sameNames_sorted, dictionary, sameNames_object, hSame]
    simp
  simp only [checkFooter, bind_ok, native_ok, refuseUnless_ok]
  refine ⟨⟨⟩, ⟨hKeys, isKind_written hDistinct (by rw [hFooter]; rfl)⟩, sortKeys (physicalManifest sha found), ?_, ⟨⟩,
    equal_sortKeys _ hPhysical.wellFormed, sortKeys (dictionary entries), ?_, true, hManifest, rfl⟩
  · rw [hLookup, hFooter]
    rfl
  · rw [hLookup, hFooter]
    rfl

/-- What is emitted in turn is read in turn. -/
theorem records_written {sequence : List (List (String × Value))} (hSome : ∀ record ∈ sequence, record ≠ [])
    (hPortable : ∀ record ∈ sequence, Portable (dictionary record)) {lines : List Bytes}
    (hEmit : sequence.mapM (fun record => emit (dictionary record)) = .ok lines) :
    records lines.flatten = (sequence.map written).map .ok := by
  have hLines : (sequence.map fun record => record.map fun field => (text field.1, field.2)).mapM
      (fun record => emit (.object record)) = .ok lines := by
    rw [List.mapM_map]
    exact hEmit
  rw [records_lines ?_ ?_ hLines, List.map_map, List.map_map]
  · rfl
  · intro record hMem
    obtain ⟨fields, hFields, rfl⟩ := List.mem_map.mp hMem
    exact fun hNil => hSome fields hFields (List.map_eq_nil_iff.mp hNil)
  · intro record hMem
    obtain ⟨fields, hFields, rfl⟩ := List.mem_map.mp hMem
    exact hPortable fields hFields

/-- The records of a backup. -/
def emitted (sha : Sha256) (contract : Contract) (source : Source) (order : List String)
    (header footer : List (String × Value)) : List (List (String × Value)) :=
  header :: ((contents contract source order).flatMap (tableRecords sha) ++ [footer])

/-- A backup that was written, with the records behind its stream. -/
structure Emission (sha : Sha256) (contract : Contract) (source : Source) (result : Written) (order : List String)
    (header footer : List (String × Value)) (lines : List Bytes) : Prop where
  ordered : creationOrder (templates contract source.layout) = .ok order
  head : result.header = dictionary header
  foot : result.footer = dictionary footer
  emits : (emitted sha contract source order header footer).mapM (fun record => emit (dictionary record)) = .ok lines
  stream : result.stream = lines.flatten
  members : ∀ record ∈ emitted sha contract source order header footer, record ≠ []
  portable : ∀ record ∈ emitted sha contract source order header footer, Portable (dictionary record)
  form : Form sha contract ((emitted sha contract source order header footer).map written) (written header) (written footer)
    source.layout order (contents contract source order)

theorem backup_emission {source : Source} {result : Written} (h : backup sha contract source = .ok result) :
    ∃ order header footer lines, Emission sha contract source result order header footer lines := by
  simp only [backup, bind_ok, native_ok, refuseUnless_ok, pure_ok] at h
  obtain ⟨-, -, header, hCapture, first, hFirst, order, hOrder, body, hBody, tables, hTables, -, -, entries, hEntries, h⟩ := h
  obtain ⟨-, -, -, -, last, hLast, rfl⟩ := h
  have hHeader := capture_portable hCapture
  have hValid := validateHeader_sorted hHeader.wellFormed (capture_valid hCapture)
  -- every table of the order is known and has the columns of its layout
  have hKnown : ∀ name ∈ order, ∃ template, (templates contract source.layout).find? (·.name == name) = some template ∧
      tableSize (sortKeys tables) name = .ok (template.captured.length + template.generated.length) := by
    intro name hMem
    obtain ⟨template, hTemplate, rfl⟩ := List.mem_map.mp ((creationOrder_ok hOrder).1.mem_iff.mp hMem)
    have hSome : ((templates contract source.layout).find? (·.name == template.name)).isSome = true :=
      List.find?_isSome.mpr ⟨template, hTemplate, beq_self_eq_true _⟩
    obtain ⟨found, hFound⟩ := Option.isSome_iff_exists.mp hSome
    have hName := List.find?_some hFound
    rw [beq_iff_eq] at hName
    refine ⟨found, hFound, ?_⟩
    rw [← hName]
    exact tableSize_valid hValid (item_sorted hHeader.wellFormed hTables) (List.mem_of_find?_eq_some hFound)
  have hNames := contents_names source fun name hMem => (hKnown name hMem).imp fun _ h => h.1
  have hPhysical : Portable (physicalManifest sha (contents contract source order)) :=
    portable_physicalManifest (by rw [hNames]; exact (creationOrder_ok hOrder).1.nodup_iff.mpr (templates_nodup source.layout))
  obtain ⟨hEntryNames, hEntries⟩ := manifest_keys (hHeader.item hTables) hEntries
  have hFooterPortable : Portable (dictionary [("type", word "footer"),
      ("physical_manifest", physicalManifest sha (contents contract source order)), ("manifest", dictionary entries)]) := by
    refine .dictionary (by simp only [List.map_cons, List.map_nil]; decide) ?_
    simp only [List.forall_mem_cons, List.not_mem_nil, false_imp_iff, implies_true, and_true]
    refine ⟨portable_word _, hPhysical, .dictionary ?_ hEntries⟩
    rw [hEntryNames]
    exact (List.nodup_append.mp (List.map_append ▸ contract.legacy_distinct)).1
  generalize hFooterEq : [("type", word "footer"), ("physical_manifest", physicalManifest sha (contents contract source order)),
    ("manifest", dictionary entries)] = footer at hLast hFooterPortable ⊢
  have hMembers : ∀ record ∈ emitted sha contract source order header footer, record ≠ [] := by
    intro record hMem
    rcases List.mem_cons.mp hMem with rfl | hMem
    · simp only [capture, bind_ok, pure_ok] at hCapture
      obtain ⟨_, -, _, -, rfl⟩ := hCapture
      exact List.cons_ne_nil _ _
    rcases List.mem_append.mp hMem with hMem | hMem
    · obtain ⟨table, -, hRecord⟩ := List.mem_flatMap.mp hMem
      exact tableRecords_ne table record hRecord
    · rw [List.mem_singleton.mp hMem, ← hFooterEq]
      exact List.cons_ne_nil _ _
  have hPortable : ∀ record ∈ emitted sha contract source order header footer, Portable (dictionary record) := by
    intro record hMem
    rcases List.mem_cons.mp hMem with rfl | hMem
    · exact hHeader
    rcases List.mem_append.mp hMem with hMem | hMem
    · obtain ⟨table, -, hRecord⟩ := List.mem_flatMap.mp hMem
      exact portable_tableRecords table record hRecord
    · rw [List.mem_singleton.mp hMem]
      exact hFooterPortable
  have hEmits : (emitted sha contract source order header footer).mapM (fun record => emit (dictionary record)) =
      .ok (first :: (body ++ [last])) := by
    rw [mapM_ok] at hBody ⊢
    exact .cons hFirst (List.rel_append hBody (.cons hLast .nil))
  have hForm : Form sha contract ((emitted sha contract source order header footer).map written) (written header)
      (written footer) source.layout order (contents contract source order) :=
    ⟨hValid, hOrder, ⟨_, _, item_sorted hHeader.wellFormed hTables, tables_written hKnown, by simp [emitted]⟩,
      checkFooter_written hPhysical hEntryNames hFooterEq.symm⟩
  exact ⟨order, header, footer, _, hOrder, rfl, rfl, hEmits, by simp, hMembers, hPortable, hForm⟩

namespace Emission

variable {source : Source} {result : Written} {order : List String} {header footer : List (String × Value)} {lines : List Bytes}
  (h : Emission sha contract source result order header footer lines)

include h

/-- The stream is read as the records that were emitted. -/
theorem records : records result.stream = ((emitted sha contract source order header footer).map written).map .ok := by
  rw [h.stream]
  exact records_written h.members h.portable h.emits

theorem held : ∀ record ∈ (emitted sha contract source order header footer).map written, Held record := by
  intro record hMem
  obtain ⟨fields, hFields, rfl⟩ := List.mem_map.mp hMem
  exact sortKeys_wellFormed _ (h.portable fields hFields).wellFormed

/-- A stream that is cut off is never scanned. -/
theorem cut {count : Nat} (hCount : count < result.stream.length) (accepted : Record × Record) :
    scan sha contract (Backup.records (result.stream.take count)) ≠ .ok accepted := by
  intro hScan
  have hLines : ((emitted sha contract source order header footer).map fun record => record.map fun field =>
      (text field.1, field.2)).mapM (fun record => emit (.object record)) = .ok lines := by
    rw [List.mapM_map]
    exact h.emits
  have hSome : ∀ record ∈ (emitted sha contract source order header footer).map fun record => record.map fun field =>
      (text field.1, field.2), record ≠ [] := by
    intro record hMem
    obtain ⟨fields, hFields, rfl⟩ := List.mem_map.mp hMem
    exact fun hNil => h.members fields hFields (List.map_eq_nil_iff.mp hNil)
  have hPortable : ∀ record ∈ (emitted sha contract source order header footer).map fun record => record.map fun field =>
      (text field.1, field.2), Portable (.object record) := by
    intro record hMem
    obtain ⟨fields, hFields, rfl⟩ := List.mem_map.mp hMem
    exact h.portable fields hFields
  rw [h.stream] at hCount hScan
  have hLength : (lines.flatten.take count).length = count := by rw [List.length_take]; omega
  obtain ⟨kept, lost, tail, hSplit, hLost, hRead, hEnd⟩ :=
    readRecords_take hSome hPortable hLines (lines.flatten.take count).length count (Nat.le_of_eq hLength.symm) hCount
  rw [Backup.records, hRead] at hScan
  obtain ⟨others, layout, order', found, hReader, hForm⟩ := scan_reader.mp hScan
  rcases hEnd with rfl | rfl
  · have hOthers : others = kept.map Record.sorted := by
      refine List.map_injective_iff.mpr ok_injective ?_
      rw [← hReader, List.append_nil, List.map_map]
      rfl
    have hWritten : (emitted sha contract source order header footer).map written =
        kept.map Record.sorted ++ lost.map Record.sorted := by
      rw [← List.map_append, ← hSplit, List.map_map]
      rfl
    have hWhole := h.form
    rw [hWritten] at hWhole
    exact hLost (List.map_eq_nil_iff.mp (hWhole.complete (hOthers ▸ hForm)))
  · -- the scan would have met the refusal of the line that was cut
    have hMem : (refuse (.invalid "Oversized or incomplete backup record") : Outcome Record) ∈ others.map .ok :=
      hReader ▸ List.mem_append_right _ List.mem_cons_self
    obtain ⟨record, -, hRefused⟩ := List.mem_map.mp hMem
    cases hRefused

end Emission

end Backup

end QsAi
