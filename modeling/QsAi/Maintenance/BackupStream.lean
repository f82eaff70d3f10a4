import QsAi.Maintenance.Backup

/-! The form of a backup. What is scanned is a header, each table of its layout
once, with its rows between its start and its end, and a footer; a restore reads
the rows that were scanned. -/
namespace QsAi

open Guarded PyJson TextEncoding BigEndian SchemaRefactor

namespace Backup

/-! Steps of a reader. -/

theorem next_ok {reader rest : List (Outcome Record)} {record : Record} :
    next reader = .ok (record, rest) ↔ reader = .ok record :: rest := by
  cases reader with
  | nil => simp [next, refuse]
  | cons item items =>
      rw [next, bind_ok]
      simp only [pure_ok, Prod.mk.injEq, List.cons.injEq]
      constructor
      · rintro ⟨found, rfl, rfl, rfl⟩
        exact ⟨rfl, rfl⟩
      · rintro ⟨rfl, rfl⟩
        exact ⟨record, rfl, rfl, rfl⟩

theorem ended_ok {message : String} {reader : List (Outcome Record)} {done : Unit} :
    ended message reader = .ok done ↔ reader = [] := by
  cases reader with
  | nil => simp [ended]
  | cons item items => simp [ended, bind_ok, refuse]

theorem refuseUnless_ok {condition : Prop} [Decidable condition] {message : String} {done : Unit} :
    refuseUnless condition message = .ok done ↔ condition := require_ok _ _ _

/-- A record has one kind. -/
theorem isKind_unique {record : Record} {first second : String} (hFirst : isKind record first = true)
    (hSecond : isKind record second = true) : first = second := by
  unfold isKind at hFirst hSecond
  cases hKind : record.lookup (text "type") with
  | none =>
      rw [hKind] at hFirst
      cases hFirst
  | some value =>
      rw [hKind] at hFirst hSecond
      cases value with
      | string word =>
          simp only [Option.any_some, Value.isText, beq_iff_eq] at hFirst hSecond
          exact text_inj.mp (hFirst.symm.trans hSecond)
      | _ => cases hFirst

theorem readRow_ok {size : Nat} {record : Record} {row : Row} : readRow size record = .ok row ↔
    hasKeys record ["type", "values"] = true ∧ isKind record "row" = true ∧
      ∃ values, record.lookup (text "values") = some values ∧ decode values size = .ok row := by
  rw [readRow, refuseUnless, require_bind_ok]
  simp only [bind_ok, native_ok, Value.item, demand_ok, and_assoc]

/-- A record of a row is not the end of its table. -/
theorem readRow_kind {size : Nat} {record : Record} {row : Row} (h : readRow size record = .ok row) :
    isKind record "end_table" = false := by
  by_contra hEnd
  rw [Bool.not_eq_false] at hEnd
  exact absurd (isKind_unique (readRow_ok.mp h).2.1 hEnd) (by decide)

/-! Tables. -/

/-- The records of one table after its start. -/
structure Rows (sha : Sha256) (name : String) (size : Nat) (body : List Record) (stop : Record) (rows : List Row) : Prop where
  read : List.Forall₂ (fun record row => readRow size record = .ok row) body rows
  kind : isKind stop "end_table" = true
  closed : isRecord stop (endRecord sha name rows) = true

variable {sha : Sha256} {contract : Contract}

theorem scanTable_ok {name : String} {size : Nat} {found rows : List Row} {reader rest : List (Outcome Record)} :
    scanTable sha name size found reader = .ok (rows, rest) ↔ ∃ body stop more, reader = body.map .ok ++ .ok stop :: rest ∧
      rows = found ++ more ∧ List.Forall₂ (fun record row => readRow size record = .ok row) body more ∧
      isKind stop "end_table" = true ∧ isRecord stop (endRecord sha name rows) = true := by
  induction reader generalizing found with
  | nil => simp [scanTable, refuse]
  | cons item items ih =>
      rw [scanTable, bind_ok]
      constructor
      · rintro ⟨record, rfl, h⟩
        split at h
        · rename_i hKind
          rw [refuseUnless, require_bind_ok, pure_ok] at h
          obtain ⟨hRecord, hFound⟩ := h
          cases hFound
          exact ⟨[], record, [], rfl, (List.append_nil _).symm, .nil, hKind, hRecord⟩
        · rw [bind_ok] at h
          obtain ⟨row, hRow, h⟩ := h
          obtain ⟨body, stop, more, rfl, rfl, hBody, hKind, hStop⟩ := ih.mp h
          exact ⟨record :: body, stop, row :: more, rfl, by rw [List.append_assoc, List.singleton_append], .cons hRow hBody,
            hKind, hStop⟩
      · rintro ⟨body, stop, more, hReader, rfl, hBody, hKind, hStop⟩
        cases hBody with
        | nil =>
            obtain ⟨rfl, rfl⟩ := List.cons.inj hReader
            refine ⟨stop, rfl, ?_⟩
            rw [List.append_nil] at hStop ⊢
            rw [if_pos hKind, refuseUnless, require_bind_pos hStop]
            rfl
        | @cons record row body more hRow hBody =>
            obtain ⟨rfl, rfl⟩ := List.cons.inj hReader
            refine ⟨record, rfl, ?_⟩
            rw [if_neg (by rw [readRow_kind hRow]; exact Bool.false_ne_true), hRow, ok_bind]
            exact ih.mpr ⟨body, stop, more, rfl, by rw [List.append_assoc, List.singleton_append], hBody, hKind, hStop⟩

/-- The records of all tables in their order, and what they hold. -/
inductive Tables (sha : Sha256) (tables : Value) : List String → List Record → List Content → Prop
  | nil : Tables sha tables [] [] []
  | cons {name : String} {order : List String} {start stop : Record} {size : Nat} {body rest : List Record} {rows : List Row}
      {found : List Content} (hStart : isRecord start (tableRecord name) = true) (hSize : tableSize tables name = .ok size)
      (hRows : Rows sha name size body stop rows) (hRest : Tables sha tables order rest found) :
      Tables sha tables (name :: order) (start :: (body ++ stop :: rest)) ((name, rows) :: found)

theorem scanTables_ok {tables : Value} {order : List String} {reader rest : List (Outcome Record)} {found : List Content} :
    scanTables sha tables order reader = .ok (found, rest) ↔
      ∃ body, reader = body.map .ok ++ rest ∧ Tables sha tables order body found := by
  induction order generalizing reader found with
  | nil =>
      rw [scanTables, pure_ok]
      constructor
      · rintro ⟨⟩
        exact ⟨[], rfl, .nil⟩
      · rintro ⟨body, rfl, hTables⟩
        cases hTables
        rfl
  | cons name order ih =>
      rw [scanTables, bind_ok]
      constructor
      · rintro ⟨⟨start, reader⟩, hNext, h⟩
        rw [next_ok] at hNext
        simp only [bind_ok, native_ok, refuseUnless_ok, pure_ok] at h
        obtain ⟨-, hStart, size, hSize, ⟨rows, after⟩, hTable, ⟨others, last⟩, hRest, hFound⟩ := h
        obtain ⟨body, stop, more, rfl, hMore, hBody, hKind, hStop⟩ := scanTable_ok.mp hTable
        rw [List.nil_append] at hMore
        subst hMore
        rw [Prod.mk.injEq] at hFound
        obtain ⟨rfl, rfl⟩ := hFound
        obtain ⟨tail, rfl, hTables⟩ := ih.mp hRest
        refine ⟨start :: (body ++ stop :: tail), ?_, .cons hStart hSize ⟨hBody, hKind, hStop⟩ hTables⟩
        rw [hNext]
        simp
      · rintro ⟨body, rfl, hTables⟩
        cases hTables with
        | @cons _ _ start stop size body tail rows others hStart hSize hRows hRest =>
            refine ⟨(start, (body ++ stop :: tail).map .ok ++ rest), rfl, ?_⟩
            simp only [bind_ok, native_ok, refuseUnless_ok, pure_ok]
            refine ⟨⟨⟩, hStart, size, hSize, (rows, tail.map .ok ++ rest), ?_, (others, rest), ?_, rfl⟩
            · refine scanTable_ok.mpr ⟨body, stop, rows, ?_, rfl, hRows.read, hRows.kind, hRows.closed⟩
              simp
            · exact ih.mpr ⟨tail, rfl, hRest⟩

/-- The form of a backup: what is scanned, in the order in which it stands. -/
structure Form (sha : Sha256) (contract : Contract) (sequence : List Record) (header footer : Record) (layout : Storage)
    (order : List String) (found : List Content) : Prop where
  valid : validateHeader sha contract (.object header) = .ok layout
  ordered : creationOrder (templates contract layout) = .ok order
  written : ∃ tables body, (Value.object header).item "tables" = .ok tables ∧ Tables sha tables order body found ∧
    sequence = header :: (body ++ [footer])
  closed : checkFooter sha contract found footer = .ok ()

theorem ok_injective {α : Type} : Function.Injective (Except.ok : α → Outcome α) := fun _ _ h => Except.ok.inj h

/-- Scanning accepts exactly this form, and no record that could not be read. -/
theorem scan_reader {reader : List (Outcome Record)} {header footer : Record} :
    scan sha contract reader = .ok (header, footer) ↔
      ∃ sequence layout order found, reader = sequence.map .ok ∧ Form sha contract sequence header footer layout order found := by
  simp only [scan, bind_ok, native_ok, pure_ok, ended_ok, Prod.mk.injEq]
  constructor
  · rintro ⟨⟨first, rest⟩, hNext, layout, hHeader, order, hOrder, tables, hTables, ⟨found, after⟩, hFound, ⟨last, none⟩, hLast,
      ⟨⟩, hFooter, -, hEnd, rfl, rfl⟩
    rw [next_ok] at hNext hLast
    simp only at hHeader hTables hFound hLast hFooter hEnd
    obtain ⟨body, rfl, hBody⟩ := scanTables_ok.mp hFound
    refine ⟨first :: (body ++ [last]), layout, order, found, ?_, hHeader, hOrder, ⟨tables, body, hTables, hBody, rfl⟩, hFooter⟩
    rw [hNext, hLast, hEnd]
    simp
  · rintro ⟨sequence, layout, order, found, rfl, hHeader, hOrder, ⟨tables, body, hTables, hBody, rfl⟩, hFooter⟩
    refine ⟨(header, (body ++ [footer]).map .ok), rfl, layout, hHeader, order, hOrder, tables, hTables,
      (found, [.ok footer]), scanTables_ok.mpr ⟨body, by simp, hBody⟩, (footer, []), rfl, ⟨⟩, hFooter, ⟨⟩, rfl, rfl, rfl⟩

theorem scan_ok {sequence : List Record} {header footer : Record} :
    scan sha contract (sequence.map .ok) = .ok (header, footer) ↔
      ∃ layout order found, Form sha contract sequence header footer layout order found := by
  rw [scan_reader]
  constructor
  · rintro ⟨others, layout, order, found, hReader, hForm⟩
    rw [List.map_injective_iff.mpr ok_injective hReader]
    exact ⟨layout, order, found, hForm⟩
  · rintro ⟨layout, order, found, hForm⟩
    exact ⟨sequence, layout, order, found, rfl, hForm⟩

/-- A backup does not go on after its end. -/
theorem Form.complete {kept lost : List Record} {header footer header' footer' : Record} {layout layout' : Storage}
    {order order' : List String} {found found' : List Content}
    (h : Form sha contract (kept ++ lost) header footer layout order found)
    (h' : Form sha contract kept header' footer' layout' order' found') : lost = [] := by
  obtain ⟨hValid, hOrder, ⟨tables, body, hTables, hBody, hSplit⟩, -⟩ := h
  obtain ⟨hValid', hOrder', ⟨tables', body', hTables', hBody', rfl⟩, -⟩ := h'
  rw [List.cons_append] at hSplit
  obtain ⟨rfl, hRest⟩ := List.cons.inj hSplit
  rw [hValid] at hValid'
  obtain rfl := Except.ok.inj hValid'
  rw [hOrder] at hOrder'
  obtain rfl := Except.ok.inj hOrder'
  rw [hTables] at hTables'
  obtain rfl := Except.ok.inj hTables'
  -- the same reader over both, which leaves what follows the tables
  have hScan : scanTables sha tables order ((body ++ [footer]).map .ok) = .ok (found, [.ok footer]) :=
    scanTables_ok.mpr ⟨body, by simp, hBody⟩
  have hScan' : scanTables sha tables order ((body' ++ [footer'] ++ lost).map .ok) =
      .ok (found', (footer' :: lost).map .ok) := scanTables_ok.mpr ⟨body', by simp, hBody'⟩
  rw [hRest, hScan, Except.ok.injEq, Prod.mk.injEq] at hScan'
  obtain ⟨-, hLeft⟩ := hScan'
  exact List.map_eq_nil_iff.mp (List.cons.inj hLeft).2.symm

/-! The order of the tables. -/

theorem creationRounds_succ (fuel : Nat) (result : List String) {pending : List Template} (hSome : pending ≠ []) :
    creationRounds (fuel + 1) result pending =
      let ready := (pending.filter fun template => decide (template.parents ⊆ result)).map (·.name)
      if ready = [] then refuse (.invalid "Frozen schema foreign key graph is cyclic")
      else
        creationRounds fuel (result ++ ready.insertionSort fun a b => text a ≤ text b)
          (pending.filter fun template => !decide (template.parents ⊆ result)) := by
  cases pending with
  | nil => exact absurd rfl hSome
  | cons template rest => rfl

/-- Each table is created once, after the tables it refers to. -/
theorem creationRounds_ok {fuel : Nat} {result order : List String} {pending : List Template}
    (h : creationRounds fuel result pending = .ok order) : ∃ later, order = result ++ later ∧
      later.Perm (pending.map (·.name)) ∧
      ∀ template ∈ pending, ∃ before after, order = before ++ template.name :: after ∧ template.parents ⊆ before := by
  induction fuel generalizing result pending with
  | zero =>
      cases pending with
      | nil =>
          cases h
          exact ⟨[], (List.append_nil _).symm, .nil, nofun⟩
      | cons template rest => cases h
  | succ fuel ih =>
      cases pending with
      | nil =>
          cases h
          exact ⟨[], (List.append_nil _).symm, .nil, nofun⟩
      | cons first rest =>
          rw [creationRounds_succ _ _ (List.cons_ne_nil _ _)] at h
          simp only at h
          split at h
          · cases h
          obtain ⟨later, hOrder, hPerm, hParents⟩ := ih h
          generalize hReady : (first :: rest).filter (fun template => decide (template.parents ⊆ result)) = ready at h hOrder
          have hSorted := List.perm_insertionSort (fun a b => text a ≤ text b) (ready.map (·.name))
          refine ⟨_, by rw [hOrder, List.append_assoc], ?_, fun template hMem => ?_⟩
          · refine (hSorted.append hPerm).trans ?_
            rw [← hReady, ← List.map_append]
            exact (List.filter_append_perm _ _).map _
          · by_cases hNow : template.parents ⊆ result
            · have hName : template.name ∈ (ready.map (·.name)).insertionSort fun a b => text a ≤ text b := by
                refine hSorted.mem_iff.mpr (List.mem_map_of_mem ?_)
                rw [← hReady, List.mem_filter]
                exact ⟨hMem, decide_eq_true hNow⟩
              obtain ⟨before, after, hSplit⟩ := List.append_of_mem hName
              refine ⟨result ++ before, after ++ later, ?_, fun name hParent => List.mem_append_left _ (hNow hParent)⟩
              rw [hOrder, hSplit]
              simp
            · exact hParents template (List.mem_filter.mpr ⟨hMem, by simp [hNow]⟩)

theorem creationOrder_ok {specs : List Template} {order : List String} (h : creationOrder specs = .ok order) :
    order.Perm (specs.map (·.name)) ∧
      ∀ template ∈ specs, ∃ before after, order = before ++ template.name :: after ∧ template.parents ⊆ before := by
  obtain ⟨later, rfl, hPerm, hParents⟩ := creationRounds_ok h
  exact ⟨hPerm, hParents⟩

/-- The rounds end: more of them than tables change nothing. -/
theorem creationRounds_more {fuel : Nat} {result : List String} {pending : List Template} (h : pending.length ≤ fuel) :
    creationRounds (fuel + 1) result pending = creationRounds fuel result pending := by
  induction fuel generalizing result pending with
  | zero =>
      obtain rfl := List.length_eq_zero_iff.mp (Nat.le_zero.mp h)
      rfl
  | succ fuel ih =>
      cases pending with
      | nil => rfl
      | cons first rest =>
          rw [creationRounds_succ _ _ (List.cons_ne_nil _ _), creationRounds_succ _ _ (List.cons_ne_nil _ _)]
          simp only
          split
          · rfl
          · rename_i hReady
            refine ih ?_
            by_contra hLong
            refine hReady (List.map_eq_nil_iff.mpr (List.filter_eq_nil_iff.mpr fun template hMem hParents => ?_))
            have hAll : ((first :: rest).filter fun template => !decide (template.parents ⊆ result)).length =
                (first :: rest).length :=
              Nat.le_antisymm (List.length_filter_le _ _) (by omega)
            rw [List.length_filter_eq_length_iff] at hAll
            simpa [hParents] using hAll template hMem

/-! Restoring. -/

/-- A record that is as expected has the values that are expected. -/
theorem isRecord_lookup {record : Record} {expected : List (String × Value)} (hHeld : (record.map (·.1)).Nodup)
    (h : isRecord record expected = true) (name : String) {value : Value} (hValue : expected.lookup name = some value) :
    ∃ found, record.lookup (text name) = some found ∧ equal found value = true :=
  equal_lookup hHeld h ((lookup_text expected name).trans hValue)

theorem endRecord_lookup {name : String} {rows : List Row} {stop : Record} (hHeld : (stop.map (·.1)).Nodup)
    (h : isRecord stop (endRecord sha name rows) = true) : stop.lookup (text "name") = some (.string (text name)) ∧
      stop.lookup (text "sha256") = some (.string (sha.hexdigest (rows.flatMap (nativeDigest sha)))) ∧
      ∃ count, stop.lookup (text "rows") = some count ∧ equal count (.int rows.length) = true := by
  obtain ⟨found, hName, hSame⟩ := isRecord_lookup hHeld h "name" rfl
  obtain ⟨digest, hDigest, hSame'⟩ := isRecord_lookup hHeld h "sha256" rfl
  obtain ⟨count, hCount, hEqual⟩ := isRecord_lookup hHeld h "rows" rfl
  rw [equal_string hSame] at hName
  rw [equal_string hSame'] at hDigest
  exact ⟨hName, hDigest, count, hCount, hEqual⟩

theorem restoreTable_rows {name : String} {size : Nat} {body : List Record} {stop : Record} {rows : List Row}
    (hRows : Rows sha name size body stop rows) (hHeld : (stop.map (·.1)).Nodup) (found : List Row)
    (rest : List (Outcome Record)) :
    restoreTable name size found (body.map .ok ++ .ok stop :: rest) = .ok (found ++ rows, rest) := by
  obtain ⟨hRead, hKind, hClosed⟩ := hRows
  obtain ⟨hName, -⟩ := endRecord_lookup hHeld hClosed
  clear hClosed
  induction hRead generalizing found with
  | nil =>
      have hOther : isKind stop "row" = false := by
        by_contra hRow
        rw [Bool.not_eq_false] at hRow
        exact absurd (isKind_unique hRow hKind) (by decide)
      rw [List.map_nil, List.nil_append, restoreTable, ok_bind, hOther, hKind, hName, List.append_nil]
      simp [Value.isText, pure, Except.pure]
  | @cons record row body rows hRow _ ih =>
      obtain ⟨-, hKind, values, hValues, hDecode⟩ := readRow_ok.mp hRow
      have hItem : (Value.object record).item "values" = .ok values := by rw [Value.item, hValues]; rfl
      rw [List.map_cons, List.cons_append, restoreTable, ok_bind, if_pos hKind, hItem]
      have hNext := ih (found ++ [row])
      rw [List.append_assoc, List.singleton_append] at hNext
      rw [← hNext]
      show (native (Except.ok values) >>= fun values => decode values size >>= _) = _
      rw [show (native (Except.ok values) : Outcome Value) = .ok values from rfl, ok_bind, hDecode, ok_bind]

theorem restoreTables_tables {tables : Value} {order : List String} {body : List Record} {found : List Content}
    (hTables : Tables sha tables order body found) (hHeld : ∀ record ∈ body, (record.map (·.1)).Nodup)
    (rest : List (Outcome Record)) : restoreTables tables order (body.map .ok ++ rest) = .ok (found, rest) := by
  induction hTables with
  | nil => rfl
  | @cons name order start stop size body tail rows found hStart hSize hRows _ ih =>
      have hStop : (stop.map (·.1)).Nodup := hHeld stop (by simp)
      have hTail : ∀ record ∈ tail, (record.map (·.1)).Nodup := fun record hMem => hHeld record (by simp [hMem])
      rw [restoreTables, bind_ok]
      refine ⟨(start, body.map .ok ++ .ok stop :: (tail.map .ok ++ rest)), next_ok.mpr (by simp), ?_⟩
      simp only [bind_ok, native_ok, refuseUnless_ok, pure_ok]
      exact ⟨⟨⟩, hStart, size, hSize, (rows, tail.map .ok ++ rest), restoreTable_rows hRows hStop [] _, (found, rest),
        ih hTail, rfl⟩

/-- A record as Python holds it: a dictionary, with dictionaries inside. -/
def Held (record : Record) : Prop := (Value.object record).WellFormed

theorem Held.nodup {record : Record} (h : Held record) : (record.map (·.1)).Nodup := (wellFormed_object.mp h).1

/-- What an accepted header says about its layout. -/
theorem validateHeader_storage {header : Value} {layout : Storage} (h : validateHeader sha contract header = .ok layout) :
    ∃ head, header.item "head" = .ok head ∧ storage head = .ok layout := by
  simp only [validateHeader, bind_ok, native_ok, pure_ok] at h
  obtain ⟨_, -, _, -, _, -, _, -, _, -, _, -, _, -, _, -, head, hHead, found, hFound, h⟩ := h
  obtain ⟨_, -, _, -, _, -, _, -, _, -, _, -, _, -, _, -, _, -, _, -, _, -, _, -, _, -, _, -, rfl⟩ := h
  exact ⟨head, hHead, hFound⟩

/-- A restore inserts what was scanned. -/
theorem Form.inserted {sequence : List Record} {header footer : Record} {layout : Storage} {order : List String}
    {found : List Content} (h : Form sha contract sequence header footer layout order found)
    (hHeld : ∀ record ∈ sequence, Held record) : restored contract header footer (sequence.map .ok) = .ok found := by
  obtain ⟨hValid, hOrder, ⟨tables, body, hTables, hBody, rfl⟩, -⟩ := h
  have hHeader : Held header := hHeld header List.mem_cons_self
  have hFooter : Held footer := hHeld footer (by simp)
  have hInner : ∀ record ∈ body, (record.map (·.1)).Nodup := fun record hMem => (hHeld record (by simp [hMem])).nodup
  obtain ⟨head, hHead, hLayout⟩ := validateHeader_storage hValid
  simp only [restored, bind_ok, native_ok, refuseUnless_ok, pure_ok, ended_ok]
  refine ⟨head, hHead, layout, hLayout, (header, (body ++ [footer]).map .ok), next_ok.mpr rfl, ⟨⟩, equal_self _ hHeader, order,
    hOrder, tables, hTables, (found, [.ok footer]), ?_, (footer, []), rfl, ⟨⟩, equal_self _ hFooter, ⟨⟩, rfl, rfl⟩
  have hReader : (body ++ [footer]).map Except.ok = body.map (Except.ok : Record → Outcome Record) ++ [.ok footer] := by simp
  rw [hReader]
  exact restoreTables_tables hBody hInner _

/-! Records in their places. -/

theorem tableRecord_lookup {name : String} {start : Record} (hHeld : Held start) (h : isRecord start (tableRecord name) = true) :
    isKind start "table" = true ∧ start.lookup (text "name") = some (.string (text name)) := by
  obtain ⟨kind, hKind, hSame⟩ := isRecord_lookup hHeld.nodup h "type" rfl
  obtain ⟨found, hName, hSame'⟩ := isRecord_lookup hHeld.nodup h "name" rfl
  rw [equal_string hSame] at hKind
  rw [equal_string hSame'] at hName
  refine ⟨?_, hName⟩
  rw [isKind, hKind]
  simp [Value.isText]

/-- The starts and the ends of tables name a table of the layout. -/
theorem Tables.named {tables : Value} {order : List String} {body : List Record} {found : List Content}
    (h : Tables sha tables order body found) (hHeld : ∀ record ∈ body, Held record) {record : Record} (hMem : record ∈ body) :
    isKind record "row" = true ∨ (isKind record "table" = true ∨ isKind record "end_table" = true) ∧
      ∃ name ∈ order, record.lookup (text "name") = some (.string (text name)) := by
  induction h with
  | nil => cases hMem
  | @cons name order start stop size body rest rows found hStart _ hRows _ ih =>
      rcases List.mem_cons.mp hMem with rfl | hMem
      · obtain ⟨hKind, hName⟩ := tableRecord_lookup (hHeld _ List.mem_cons_self) hStart
        exact .inr ⟨.inl hKind, name, List.mem_cons_self, hName⟩
      rcases List.mem_append.mp hMem with hRow | hMem
      · obtain ⟨i, hi, rfl⟩ := List.getElem_of_mem hRow
        have hLength := hRows.read.length_eq
        exact .inl (readRow_ok.mp (hRows.read.get hi (hLength ▸ hi))).2.1
      rcases List.mem_cons.mp hMem with rfl | hMem
      · have hStop : Held record := hHeld _ (by simp)
        exact .inr ⟨.inr hRows.kind, name, List.mem_cons_self, (endRecord_lookup hStop.nodup hRows.closed).1⟩
      · rcases ih (fun record hMem => hHeld record (by simp [hMem])) hMem with hRow | ⟨hKind, other, hOther, hName⟩
        · exact .inl hRow
        · exact .inr ⟨hKind, other, List.mem_cons_of_mem _ hOther, hName⟩

/-- A table starts once and ends once. -/
theorem Tables.unique {tables : Value} {order : List String} {body : List Record} {found : List Content}
    (h : Tables sha tables order body found) (hHeld : ∀ record ∈ body, Held record) (hOrder : order.Nodup) {kind : String}
    (hPlace : kind = "table" ∨ kind = "end_table") {first second : Record} (hFirst : first ∈ body) (hSecond : second ∈ body)
    (hKind : isKind first kind = true) (hKind' : isKind second kind = true)
    (hName : first.lookup (text "name") = second.lookup (text "name")) : first = second := by
  have hRow : ∀ {record : Record}, isKind record kind = true → isKind record "row" ≠ true := by
    intro record hPlaced hRow
    have hSame := isKind_unique hPlaced hRow
    rcases hPlace with rfl | rfl
    · exact absurd hSame (by decide)
    · exact absurd hSame (by decide)
  induction h with
  | nil => cases hFirst
  | @cons name order start stop size body rest rows found hStart _ hRows hRest ih =>
      rw [List.nodup_cons] at hOrder
      have hHeldRest : ∀ record ∈ rest, Held record := fun record hMem => hHeld record (by simp [hMem])
      obtain ⟨hStartKind, hStartName⟩ := tableRecord_lookup (hHeld _ List.mem_cons_self) hStart
      have hStopHeld : Held stop := hHeld _ (by simp)
      have hStopName := (endRecord_lookup hStopHeld.nodup hRows.closed).1
      -- where a record of this kind stands: at an edge of this table, or later
      have hPlaced : ∀ record ∈ start :: (body ++ stop :: rest), isKind record kind = true →
          (record = start ∧ kind = "table" ∨ record = stop ∧ kind = "end_table") ∧
              record.lookup (text "name") = some (.string (text name)) ∨
            record ∈ rest ∧ ∃ other ∈ order, record.lookup (text "name") = some (.string (text other)) := by
        intro record hMem hRecord
        rcases List.mem_cons.mp hMem with rfl | hMem
        · exact .inl ⟨.inl ⟨rfl, isKind_unique hRecord hStartKind⟩, hStartName⟩
        rcases List.mem_append.mp hMem with hBody | hMem
        · obtain ⟨i, hi, rfl⟩ := List.getElem_of_mem hBody
          have hLength := hRows.read.length_eq
          exact absurd (readRow_ok.mp (hRows.read.get hi (hLength ▸ hi))).2.1 (hRow hRecord)
        rcases List.mem_cons.mp hMem with rfl | hMem
        · exact .inl ⟨.inr ⟨rfl, isKind_unique hRecord hRows.kind⟩, hStopName⟩
        · rcases hRest.named hHeldRest hMem with hBody | ⟨-, hOther⟩
          · exact absurd hBody (hRow hRecord)
          · exact .inr ⟨hMem, hOther⟩
      have hApart : ∀ other ∈ order, some (Value.string (text name)) ≠ some (.string (text other)) := by
        intro other hOther hSame
        have hText : name = other := text_inj.mp (Value.string.inj (Option.some.inj hSame))
        exact hOrder.1 (hText ▸ hOther)
      rcases hPlaced first hFirst hKind with ⟨hEdge, hHere⟩ | ⟨hLater, other, hOther, hThere⟩
      · rcases hPlaced second hSecond hKind' with ⟨hEdge', -⟩ | ⟨-, other, hOther, hThere⟩
        · rcases hEdge with ⟨rfl, rfl⟩ | ⟨rfl, rfl⟩
          · rcases hEdge' with ⟨rfl, -⟩ | ⟨-, hWrong⟩
            · rfl
            · exact absurd hWrong (by decide)
          · rcases hEdge' with ⟨-, hWrong⟩ | ⟨rfl, -⟩
            · exact absurd hWrong (by decide)
            · rfl
        · exact absurd (hHere.symm.trans (hName.trans hThere)) (hApart other hOther)
      · rcases hPlaced second hSecond hKind' with ⟨-, hHere⟩ | ⟨hLater', -⟩
        · exact absurd (hHere.symm.trans (hName.symm.trans hThere)) (hApart other hOther)
        · exact ih hHeldRest hOrder.2 hLater hLater'

/-! Changed backups. -/

/-- A record in the place of another: the same, or a row that holds the same bytes. -/
def SameRecord (first second : Record) : Prop :=
  first = second ∨ ∃ size row, readRow size first = .ok row ∧ readRow size second = .ok row

/-- What was hashed for some tables. -/
def hashedIn (sha : Sha256) (tables : List Content) : List Bytes := tables.flatMap fun table => hashed sha table.2

/-- No two different texts of the two backups have one digest. -/
def Apart (sha : Sha256) (first second : List Content) : Prop :=
  ∀ a ∈ hashedIn sha first, ∀ b ∈ hashedIn sha second, sha.hexdigest a = sha.hexdigest b → a = b

theorem sameRecord_rows {size : Nat} {first second : List Record} {rows : List Row}
    (hFirst : List.Forall₂ (fun record row => readRow size record = .ok row) first rows)
    (hSecond : List.Forall₂ (fun record row => readRow size record = .ok row) second rows) :
    List.Forall₂ SameRecord first second := by
  induction hFirst generalizing second with
  | nil =>
      cases hSecond
      exact .nil
  | cons hRow _ ih =>
      cases hSecond with
      | cons hOther hRest => exact .cons (.inr ⟨size, _, hRow, hOther⟩) (ih hRest)

/-- A record that is as expected has the kind that is expected. -/
theorem isRecord_kind {record : Record} {expected : List (String × Value)} (h : isRecord record expected = true)
    {kind other : String} (hExpected : expected.lookup "type" = some (.string (text kind)))
    (hKind : isKind record other = true) : other = kind := by
  rw [isKind, Option.any_eq_true] at hKind
  obtain ⟨value, hValue, hText⟩ := hKind
  obtain ⟨found, hFound, hSame⟩ := (alike_object.mp h).2 _ (mem_of_lookup hValue)
  rw [lookup_text, hExpected] at hFound
  obtain rfl := Option.some.inj hFound
  obtain rfl := equal_string hSame
  exact (text_inj.mp (eq_of_beq hText)).symm

/-- Tables whose starts and ends are records of one backup hold what it holds. -/
theorem Tables.same {tables : Value} {order : List String} {body body' : List Record} {found found' : List Content}
    (h : Tables sha tables order body found) (h' : Tables sha tables order body' found')
    (hHeld : ∀ record ∈ body, Held record) (hHeld' : ∀ record ∈ body', isKind record "row" = true ∨ Held record)
    (hUnique : ∀ first ∈ body, ∀ second ∈ body', ∀ kind, kind = "table" ∨ kind = "end_table" → isKind first kind = true →
      isKind second kind = true → first.lookup (text "name") = second.lookup (text "name") → first = second)
    (hApart : Apart sha found found') : List.Forall₂ SameRecord body body' ∧ found = found' := by
  induction h generalizing body' found' with
  | nil =>
      cases h'
      exact ⟨.nil, rfl⟩
  | @cons name order start stop size body rest rows found hStart hSize hRows _ ih =>
      cases h' with
      | @cons _ _ start' stop' size' body' rest' rows' found' hStart' hSize' hRows' hRest' =>
          rw [hSize] at hSize'
          obtain rfl := Except.ok.inj hSize'
          obtain ⟨hKind, hName⟩ := tableRecord_lookup (hHeld _ List.mem_cons_self) hStart
          have hHeldStart : Held start' := (hHeld' _ List.mem_cons_self).resolve_left fun hRow =>
            absurd (isRecord_kind hStart' rfl hRow) (by decide)
          obtain ⟨hKind', hName'⟩ := tableRecord_lookup hHeldStart hStart'
          obtain rfl := hUnique start List.mem_cons_self start' List.mem_cons_self "table" (.inl rfl) hKind hKind'
            (hName.trans hName'.symm)
          have hStop : Held stop := hHeld _ (by simp)
          have hStop' : Held stop' := (hHeld' stop' (by simp)).resolve_left fun hRow =>
            absurd (isKind_unique hRow hRows'.kind) (by decide)
          obtain ⟨hEnd, hDigest, -⟩ := endRecord_lookup hStop.nodup hRows.closed
          obtain ⟨hEnd', hDigest', -⟩ := endRecord_lookup hStop'.nodup hRows'.closed
          obtain rfl := hUnique stop (by simp) stop' (by simp) "end_table" (.inr rfl) hRows.kind hRows'.kind
            (hEnd.trans hEnd'.symm)
          have hSame : rows = rows' := by
            refine rows_of_digest (fun a ha b hb => hApart a ?_ b ?_)
              (Value.string.inj (Option.some.inj (hDigest.symm.trans hDigest')))
            · exact List.mem_append_left _ ha
            · exact List.mem_append_left _ hb
          subst hSame
          obtain ⟨hTail, rfl⟩ := ih hRest' (fun record hMem => hHeld record (by simp [hMem]))
            (fun record hMem => hHeld' record (by simp [hMem]))
            (fun first hFirst second hSecond => hUnique first (by simp [hFirst]) second (by simp [hSecond]))
            (fun a ha b hb => hApart a (List.mem_append_right _ ha) b (List.mem_append_right _ hb))
          refine ⟨.cons (.inl rfl) ?_, rfl⟩
          exact List.rel_append (sameRecord_rows hRows.read hRows'.read) (.cons (.inl rfl) hTail)

theorem validateHeader_kind {header : Record} {layout : Storage}
    (h : validateHeader sha contract (.object header) = .ok layout) : isKind header "header" = true := by
  simp only [validateHeader, bind_ok, native_ok, refuseUnless_ok] at h
  obtain ⟨kind, hKind, -, hHeader, -⟩ := h
  obtain rfl := Except.ok.inj hKind
  exact hHeader

theorem checkFooter_kind {found : List Content} {footer : Record} (h : checkFooter sha contract found footer = .ok ()) :
    isKind footer "footer" = true := by
  simp only [checkFooter, bind_ok, refuseUnless_ok] at h
  exact h.choose_spec.1.2

/-- The header stands first only, and the footer last only. -/
theorem Form.place {sequence : List Record} {header footer : Record} {layout : Storage} {order : List String}
    {found : List Content} (h : Form sha contract sequence header footer layout order found)
    (hHeld : ∀ record ∈ sequence, Held record) {record : Record} (hMem : record ∈ sequence) :
    (isKind record "header" = true → record = header) ∧ (isKind record "footer" = true → record = footer) := by
  obtain ⟨hValid, -, ⟨tables, body, -, hBody, rfl⟩, hClosed⟩ := h
  have hHeader := validateHeader_kind hValid
  have hFooter := checkFooter_kind hClosed
  rcases List.mem_cons.mp hMem with rfl | hMem
  · exact ⟨fun _ => rfl, fun hKind => absurd (isKind_unique hKind hHeader) (by decide)⟩
  rcases List.mem_append.mp hMem with hInner | hLast
  · have hOther := hBody.named (fun record hMem => hHeld record (by simp [hMem])) hInner
    refine ⟨fun hKind => ?_, fun hKind => ?_⟩
    · rcases hOther with hRow | ⟨hTable | hEnd, -⟩
      · exact absurd (isKind_unique hKind hRow) (by decide)
      · exact absurd (isKind_unique hKind hTable) (by decide)
      · exact absurd (isKind_unique hKind hEnd) (by decide)
    · rcases hOther with hRow | ⟨hTable | hEnd, -⟩
      · exact absurd (isKind_unique hKind hRow) (by decide)
      · exact absurd (isKind_unique hKind hTable) (by decide)
      · exact absurd (isKind_unique hKind hEnd) (by decide)
  · rw [List.mem_singleton.mp hLast]
    exact ⟨fun hKind => absurd (isKind_unique hKind hFooter) (by decide), fun _ => rfl⟩

theorem templates_nodup (layout : Storage) : ((templates contract layout).map (·.name)).Nodup := by
  cases layout with
  | old => exact contract.legacy_distinct
  | new => exact contract.final_distinct

/-- What is made of the records of one backup, with rows rewritten at will, and is
accepted again is that backup, up to the spelling of its rows. -/
theorem Form.same {sequence others : List Record} {header footer header' footer' : Record} {layout layout' : Storage}
    {order order' : List String} {found found' : List Content}
    (h : Form sha contract sequence header footer layout order found)
    (h' : Form sha contract others header' footer' layout' order' found') (hHeld : ∀ record ∈ sequence, Held record)
    (hPart : ∀ record ∈ others, isKind record "row" = true ∨ record ∈ sequence) (hApart : Apart sha found found') :
    List.Forall₂ SameRecord sequence others ∧ found = found' := by
  have hPlace := fun {record : Record} (hMem : record ∈ sequence) => h.place hHeld hMem
  obtain ⟨hValid, hOrder, ⟨tables, body, hTables, hBody, rfl⟩, hClosed⟩ := h
  obtain ⟨hValid', hOrder', ⟨tables', body', hTables', hBody', rfl⟩, hClosed'⟩ := h'
  have hHeaderMem := (hPart header' List.mem_cons_self).resolve_left fun hRow =>
    absurd (isKind_unique hRow (validateHeader_kind hValid')) (by decide)
  have hFooterMem := (hPart footer' (by simp)).resolve_left fun hRow =>
    absurd (isKind_unique hRow (checkFooter_kind hClosed')) (by decide)
  have hHeader : header' = header := (hPlace hHeaderMem).1 (validateHeader_kind hValid')
  have hFooter : footer' = footer := (hPlace hFooterMem).2 (checkFooter_kind hClosed')
  subst hHeader hFooter
  rw [hValid] at hValid'
  obtain rfl := Except.ok.inj hValid'
  rw [hOrder] at hOrder'
  obtain rfl := Except.ok.inj hOrder'
  rw [hTables] at hTables'
  obtain rfl := Except.ok.inj hTables'
  have hNodup : order.Nodup := (creationOrder_ok hOrder).1.nodup_iff.mpr (templates_nodup layout)
  have hHeldBody : ∀ record ∈ body, Held record := fun record hMem => hHeld record (by simp [hMem])
  have hHeldOthers : ∀ record ∈ body', isKind record "row" = true ∨ Held record := fun record hMem =>
    (hPart record (by simp [hMem])).imp_right (hHeld record)
  -- a record of the second that starts or ends a table is one of the tables of the first
  have hInner : ∀ record ∈ body', ∀ kind, kind = "table" ∨ kind = "end_table" → isKind record kind = true → record ∈ body := by
    intro record hMem kind hPlaced hKind
    have hMember : record ∈ header' :: (body ++ [footer']) := by
      refine (hPart record (by simp [hMem])).resolve_left fun hRow => ?_
      rcases hPlaced with rfl | rfl
      · exact absurd (isKind_unique hRow hKind) (by decide)
      · exact absurd (isKind_unique hRow hKind) (by decide)
    rcases List.mem_cons.mp hMember with rfl | hMember
    · rcases hPlaced with rfl | rfl
      · exact absurd (isKind_unique hKind (validateHeader_kind hValid)) (by decide)
      · exact absurd (isKind_unique hKind (validateHeader_kind hValid)) (by decide)
    rcases List.mem_append.mp hMember with hBodyMem | hLast
    · exact hBodyMem
    · rw [List.mem_singleton.mp hLast] at hKind
      rcases hPlaced with rfl | rfl
      · exact absurd (isKind_unique hKind (checkFooter_kind hClosed)) (by decide)
      · exact absurd (isKind_unique hKind (checkFooter_kind hClosed)) (by decide)
  obtain ⟨hSame, rfl⟩ := hBody.same hBody' hHeldBody hHeldOthers
    (fun first hFirst second hSecond kind hPlaced hKind hKind' hName =>
      hBody.unique hHeldBody hNodup hPlaced hFirst (hInner second hSecond kind hPlaced hKind') hKind hKind' hName) hApart
  exact ⟨.cons (.inl rfl) (List.rel_append hSame (.cons (.inl rfl) .nil)), rfl⟩

end Backup

end QsAi
