import QsAi.Foundation.JsonCanonical
import Mathlib.Data.List.ReduceOption

/-! The records of a native backup. Each record is one line of canonical JSON; a
row is written cell by cell in base 64, and its digest covers the bytes of the
cells, not their spelling. -/
namespace QsAi

open Guarded PyJson TextEncoding BigEndian

namespace Backup

/-- Why a backup is refused: for a reason of its own, or because the records end. -/
inductive Rejection
  | invalid (message : String)
  | exhausted
deriving DecidableEq, Repr

abbrev Outcome (α : Type) := Except (Failure Rejection) α

def refuseUnless (condition : Prop) [Decidable condition] (message : String) : Outcome Unit :=
  require condition (.refused (.invalid message))

/-- SHA-256 by its hexadecimal digest. -/
structure Sha256 where
  hexdigest : Bytes → Text
  ascii : ∀ bytes, ∀ c ∈ hexdigest bytes, c < 128

def format : String := "qs-ai-native-backup/v1"

def maxRecordBytes : Nat := 512 * 1024 * 1024

/-- `json.dumps` with sorted keys, compact and in ASCII. -/
def canonical (value : Value) : Except Fault Bytes := do
  checkWritten true none value
  pure (asciiEncode (canonicalText value))

/-- A native value of a column, or NULL. -/
abbrev Cell := Option Bytes

abbrev Row := List Cell

section Digest

variable (sha : Sha256)

def cellText : Cell → Text
  | none => text "SQL_NULL"
  | some value => printNat value.length ++ 58 :: sha.hexdigest value

/-- What the digest of a table takes in for a row. -/
def nativeDigest (values : Row) : Bytes :=
  asciiEncode (canonicalText (.array (values.map fun value => .string (cellText sha value)))) ++ [10]

end Digest

def encode (values : Row) : Value :=
  .array (values.map fun value => match value with
    | none => .null
    | some value => .string (base64Text value))

def decodeCell : Value → Outcome Cell
  | .null => pure none
  | .string value => do
      let bytes ← native (demand (b64decode value) .value)
      pure (some bytes)
  | _ => refuse (.invalid "Native record encoding mismatch")

def decode (values : Value) (size : Nat) : Outcome Row :=
  match values with
  | .array items => do
      refuseUnless (items.length = size) "Native record column shape mismatch"
      items.mapM decodeCell
  | _ => refuse (.invalid "Native record column shape mismatch")

/-- A record is a dictionary. -/
abbrev Record := List (Text × Value)

/-- Write a record as a line. -/
def emit (value : Value) : Outcome Bytes := do
  let content ← native (canonical value)
  refuseUnless ((content ++ [10]).length ≤ maxRecordBytes) "Native row exceeds the backup record limit"
  pure (content ++ [10])

/-- The bytes up to the end of the line, at most so many. -/
def readline (size : Nat) (stream : Bytes) : Bytes :=
  if 10 ∈ stream.take size then (stream.take size).takeWhile (· != 10) ++ [10] else stream.take size

/-- What a loop over the lines of a backup meets: its records, and the first
refusal if there is one. -/
def readRecords : Nat → Bytes → List (Outcome Record)
  | 0, _ => []
  | fuel + 1, stream =>
      let line := readline (maxRecordBytes + 1) stream
      if line = [] then []
      else if maxRecordBytes < line.length ∨ line.getLast? ≠ some 10 then
        [refuse (.invalid "Oversized or incomplete backup record")]
      else
        match loadsOctets distinct none line with
        | .error _ => [.error (.raised .value)]
        | .ok (.object fields) => .ok fields :: readRecords fuel (stream.drop line.length)
        | .ok _ => [refuse (.invalid "Backup record must be an object")]

/-- The records of a stream; every line takes at least one byte of it. -/
def records (stream : Bytes) : List (Outcome Record) := readRecords stream.length stream

/-! Cells. -/

theorem decodeCell_encode (value : Cell) :
    decodeCell (match value with
      | none => .null
      | some value => .string (base64Text value)) = .ok value := by
  cases value with
  | none => rfl
  | some value =>
      simp only [decodeCell, b64decode_base64Text]
      rfl

/-- A row is read as it was written. -/
theorem decode_encode (values : Row) : decode (encode values) values.length = .ok values := by
  rw [encode, decode, refuseUnless, require_bind_pos (List.length_map _), mapM_ok, List.forall₂_map_left_iff,
    List.forall₂_same]
  exact fun value _ => decodeCell_encode value

theorem decode_ok {values : Value} {size : Nat} {row : Row} : decode values size = .ok row ↔
    ∃ items, values = .array items ∧ items.length = size ∧
      List.Forall₂ (fun item cell => decodeCell item = .ok cell) items row := by
  cases values with
  | array items =>
      rw [decode, refuseUnless, require_bind_ok, mapM_ok]
      simp
  | _ => simp [decode]

/-! Digests of rows. -/

/-- The first separator is where both texts have it. -/
theorem separator_inj {α : Type} {separator : α} {first second rest others : List α} (hFirst : separator ∉ first)
    (hSecond : separator ∉ second) (h : first ++ separator :: rest = second ++ separator :: others) :
    first = second ∧ rest = others := by
  induction first generalizing second with
  | nil =>
      cases second with
      | nil => exact ⟨rfl, (List.cons.inj h).2⟩
      | cons c second => exact absurd ((List.cons.inj h).1 ▸ List.mem_cons_self) hSecond
  | cons c first ih =>
      cases second with
      | nil => exact absurd ((List.cons.inj h).1 ▸ List.mem_cons_self) hFirst
      | cons d second =>
          obtain ⟨rfl, hTail⟩ := List.cons.inj h
          obtain ⟨rfl, hRest⟩ := ih (fun hMem => hFirst (List.mem_cons_of_mem _ hMem))
            (fun hMem => hSecond (List.mem_cons_of_mem _ hMem)) hTail
          exact ⟨rfl, hRest⟩

variable {sha : Sha256}

theorem cellText_ascii (value : Cell) : ∀ c ∈ cellText sha value, c < 128 := by
  cases value with
  | none =>
      intro c hc
      have hAll : ∀ c ∈ text "SQL_NULL", c < 128 := by decide
      exact hAll c hc
  | some value =>
      intro c hc
      rw [cellText, List.mem_append, List.mem_cons] at hc
      rcases hc with hc | rfl | hc
      · have hDigit := printNat_digits _ c hc
        omega
      · decide
      · exact sha.ascii value c hc

theorem portable_cells (sha : Sha256) (values : Row) : Portable (.array (values.map fun value => .string (cellText sha value))) := by
  refine .array fun item hMem => ?_
  obtain ⟨value, -, rfl⟩ := List.mem_map.mp hMem
  exact .string (scalarText_ascii (cellText_ascii value))

/-- Texts in a list have one canonical text. -/
theorem canonicalText_cells {first second : Row}
    (h : canonicalText (.array (first.map fun value => .string (cellText sha value))) =
      canonicalText (.array (second.map fun value => .string (cellText sha value)))) :
    first.map (cellText sha) = second.map (cellText sha) := by
  have hCheck : ∀ values : Row, checkWritten true none (.array (values.map fun value => .string (cellText sha value))) = .ok () := by
    intro values
    refine checkWritten_array.mpr ⟨none, rfl, checkItems_iff.mpr fun item hMem => ?_⟩
    obtain ⟨value, -, rfl⟩ := List.mem_map.mp hMem
    rfl
  have hFirst := loads_canonicalText keeps_distinct (portable_cells sha first) (hCheck first)
  rw [h, loads_canonicalText keeps_distinct (portable_cells sha second) (hCheck second), Except.ok.injEq, sortKeys_array,
    sortKeys_array, Value.array.injEq, List.map_map, List.map_map] at hFirst
  have hTexts := congrArg (List.map Value.asText) hFirst
  rw [List.map_map, List.map_map] at hTexts
  have hSome : ∀ values : Row, List.map (Value.asText ∘ sortKeys ∘ fun value => .string (cellText sha value)) values =
      (values.map (cellText sha)).map some := by
    intro values
    rw [List.map_map]
    rfl
  rw [hSome, hSome] at hTexts
  exact (List.map_injective_iff.mpr (Option.some_injective _) hTexts).symm

theorem asciiEncode_line {content : Text} (h : ∀ c ∈ content, 32 ≤ c ∧ c < 127) : (10 : UInt8) ∉ asciiEncode content := by
  intro hMem
  obtain ⟨c, hc, hCode⟩ := List.mem_map.mp hMem
  have hBounds := h c hc
  have hNat := congrArg UInt8.toNat hCode
  rw [UInt8.toNat_ofNat'] at hNat
  have hTen : (10 : UInt8).toNat = 10 := rfl
  omega

/-- The lines that a digest takes in. -/
theorem nativeDigest_line (sha : Sha256) (values : Row) : ∃ content, nativeDigest sha values = content ++ [10] ∧ (10 : UInt8) ∉ content ∧
    codes content = canonicalText (.array (values.map fun value => .string (cellText sha value))) := by
  have hAscii := canonicalText_ascii (portable_cells sha values)
  refine ⟨_, rfl, asciiEncode_line hAscii, codes_asciiEncode fun c hc => ?_⟩
  have hBounds := hAscii c hc
  omega

/-- What was hashed for some rows: the bytes of their cells, and the text of all
rows together. -/
def hashed (sha : Sha256) (rows : List Row) : List Bytes := rows.flatMap (nativeDigest sha) :: rows.flatMap fun row => row.reduceOption

theorem cellText_inj {first second : Cell}
    (hApart : ∀ a ∈ first, ∀ b ∈ second, sha.hexdigest a = sha.hexdigest b → a = b)
    (h : cellText sha first = cellText sha second) : first = second := by
  have hNull : ∀ value : Bytes, text "SQL_NULL" ≠ printNat value.length ++ 58 :: sha.hexdigest value := by
    intro value hSame
    have hColon : 58 ∈ text "SQL_NULL" := by
      rw [hSame]
      exact List.mem_append_right _ List.mem_cons_self
    exact absurd hColon (by decide)
  cases first with
  | none =>
      cases second with
      | none => rfl
      | some b => exact absurd h (hNull b)
  | some a =>
      cases second with
      | none => exact absurd h.symm (hNull a)
      | some b =>
          have hDigits : ∀ value : Bytes, 58 ∉ printNat value.length := fun value hMem => by
            have hBounds := printNat_digits _ 58 hMem
            omega
          rw [hApart a rfl b rfl (separator_inj (hDigits a) (hDigits b) h).2]

theorem map_cellText_inj {first second : Row}
    (hApart : ∀ a ∈ first.reduceOption, ∀ b ∈ second.reduceOption, sha.hexdigest a = sha.hexdigest b → a = b)
    (h : first.map (cellText sha) = second.map (cellText sha)) : first = second := by
  induction first generalizing second with
  | nil => exact (List.map_eq_nil_iff.mp h.symm).symm
  | cons cell first ih =>
      cases second with
      | nil => cases h
      | cons other second =>
          obtain ⟨hCell, hRest⟩ := List.cons.inj h
          simp only [List.reduceOption_mem_iff] at hApart ih
          have hHead : cell = other :=
            cellText_inj (fun a ha b hb => hApart a (ha ▸ List.mem_cons_self) b (hb ▸ List.mem_cons_self)) hCell
          rw [hHead, ih (fun a ha b hb => hApart a (List.mem_cons_of_mem _ ha) b (List.mem_cons_of_mem _ hb)) hRest]

/-- Rows with one digest are the same rows, unless two of the texts that were
hashed have one digest. -/
theorem rows_of_digest {first second : List Row}
    (hApart : ∀ a ∈ hashed sha first, ∀ b ∈ hashed sha second, sha.hexdigest a = sha.hexdigest b → a = b)
    (h : sha.hexdigest (first.flatMap (nativeDigest sha)) = sha.hexdigest (second.flatMap (nativeDigest sha))) :
    first = second := by
  have hTexts := hApart _ List.mem_cons_self _ List.mem_cons_self h
  have hCells : ∀ a ∈ first, ∀ b ∈ second, ∀ c ∈ a.reduceOption, ∀ d ∈ b.reduceOption, sha.hexdigest c = sha.hexdigest d → c = d :=
    fun a ha b hb c hc d hd => hApart c (List.mem_cons_of_mem _ (List.mem_flatMap.mpr ⟨a, ha, hc⟩)) d
      (List.mem_cons_of_mem _ (List.mem_flatMap.mpr ⟨b, hb, hd⟩))
  clear hApart h
  induction first generalizing second with
  | nil =>
      cases second with
      | nil => rfl
      | cons row second =>
          obtain ⟨content, hLine, -⟩ := nativeDigest_line sha row
          rw [List.flatMap_nil, List.flatMap_cons, hLine] at hTexts
          simp at hTexts
  | cons row first ih =>
      obtain ⟨content, hLine, hEnd, hCodes⟩ := nativeDigest_line sha row
      cases second with
      | nil =>
          rw [List.flatMap_nil, List.flatMap_cons, hLine] at hTexts
          simp at hTexts
      | cons other second =>
          obtain ⟨content', hLine', hEnd', hCodes'⟩ := nativeDigest_line sha other
          rw [List.flatMap_cons, List.flatMap_cons, hLine, hLine', List.append_assoc, List.append_assoc,
            List.singleton_append, List.singleton_append] at hTexts
          obtain ⟨rfl, hRest⟩ := separator_inj hEnd hEnd' hTexts
          have hRow : row = other :=
            map_cellText_inj (hCells row List.mem_cons_self other List.mem_cons_self)
              (canonicalText_cells (hCodes.symm.trans hCodes'))
          rw [hRow, ih hRest fun a ha b hb => hCells a (List.mem_cons_of_mem _ ha) b (List.mem_cons_of_mem _ hb)]

/-! Lines. -/

theorem emit_ok {value : Value} {line : Bytes} : emit value = .ok line ↔ checkWritten true none value = .ok () ∧
    line = asciiEncode (canonicalText value) ++ [10] ∧ line.length ≤ maxRecordBytes := by
  rw [emit, bind_ok]
  simp only [native_ok, canonical, bind_ok, pure_ok, refuseUnless, require_ok]
  constructor
  · rintro ⟨content, ⟨⟨⟩, hCheck, rfl⟩, ⟨⟩, hLength, rfl⟩
    exact ⟨hCheck, rfl, hLength⟩
  · rintro ⟨hCheck, rfl, hLength⟩
    exact ⟨_, ⟨⟨⟩, hCheck, rfl⟩, ⟨⟩, hLength, rfl⟩

theorem readline_line {content rest : Bytes} {size : Nat} (hEnd : (10 : UInt8) ∉ content) (hSize : content.length < size) :
    readline size (content ++ 10 :: rest) = content ++ [10] := by
  obtain ⟨more, rfl⟩ : ∃ more, size = content.length + (more + 1) := ⟨size - content.length - 1, by omega⟩
  have hTake : (content ++ 10 :: rest).take (content.length + (more + 1)) = content ++ 10 :: rest.take more := by
    rw [List.take_length_add_append, List.take_succ_cons]
  have hWhile : (content ++ 10 :: rest.take more).takeWhile (· != 10) = content := by
    have hOther : ∀ c ∈ content, (c != 10) = true := fun c hc => bne_iff_ne.mpr fun hTen => hEnd (hTen ▸ hc)
    rw [List.takeWhile_append_of_pos hOther,
      List.takeWhile_cons_of_neg (by simp), List.append_nil]
  rw [readline, hTake, if_pos (List.mem_append_right _ List.mem_cons_self), hWhile]

/-- A record as it is read back: its keys sorted at every level. -/
def Record.sorted (record : Record) : Record := (sortFields record).insertionSort Before

theorem Record.sortKeys (record : Record) : PyJson.sortKeys (.object record) = .object record.sorted := rfl

/-- One line is read as the record that was written. -/
theorem readRecords_emit {record : Record} (hSome : record ≠ []) (hPortable : Portable (.object record)) {line : Bytes}
    (hEmit : emit (.object record) = .ok line) (fuel : Nat) (rest : Bytes) :
    readRecords (fuel + 1) (line ++ rest) = .ok record.sorted :: readRecords fuel rest := by
  obtain ⟨hCheck, rfl, hLength⟩ := emit_ok.mp hEmit
  have hAscii := canonicalText_ascii hPortable
  have hEnd := asciiEncode_line hAscii
  obtain ⟨tail, hText⟩ := canonicalText_object hSome
  have hLoad : loadsOctets distinct none (asciiEncode (canonicalText (.object record)) ++ [10]) = .ok (.object record.sorted) := by
    have hLine := loads_line (loads_canonicalText keeps_distinct hPortable hCheck)
    rw [Record.sortKeys, hText] at hLine
    have hBytes : asciiEncode (canonicalText (.object record)) ++ [10] = asciiEncode (123 :: 34 :: (tail ++ [10])) := by
      rw [hText, asciiEncode, asciiEncode, ← List.cons_append, ← List.cons_append, List.map_append]
      rfl
    rw [hBytes, loadsOctets_asciiEncode]
    · exact hLine
    · intro c hc
      rcases List.mem_append.mp hc with hc | hc
      · have hBound := (hAscii c (hText ▸ List.mem_cons_of_mem _ (List.mem_cons_of_mem _ hc))).2
        omega
      · rw [List.mem_singleton.mp hc]
        decide
  rw [List.length_append, List.length_singleton] at hLength
  have hRead : readline (maxRecordBytes + 1) (asciiEncode (canonicalText (.object record)) ++ [10] ++ rest) =
      asciiEncode (canonicalText (.object record)) ++ [10] := by
    rw [List.append_assoc, List.singleton_append]
    exact readline_line hEnd (by omega)
  have hFits : ¬ (maxRecordBytes < (asciiEncode (canonicalText (.object record)) ++ [10]).length ∨
      (asciiEncode (canonicalText (.object record)) ++ [10]).getLast? ≠ some 10) := by
    rw [List.length_append, List.length_singleton, List.getLast?_concat]
    simp only [ne_eq, not_true_eq_false, or_false, not_lt]
    exact hLength
  rw [readRecords, hRead, if_neg (by simp), if_neg hFits, hLoad]
  simp only [List.drop_left]

theorem readRecords_lines {written : List Record} (hSome : ∀ record ∈ written, record ≠ [])
    (hPortable : ∀ record ∈ written, Portable (.object record)) {lines : List Bytes}
    (hEmit : written.mapM (fun record => emit (.object record)) = .ok lines) {fuel : Nat} (hFuel : written.length ≤ fuel) :
    readRecords fuel lines.flatten = written.map fun record => .ok record.sorted := by
  rw [mapM_ok] at hEmit
  induction hEmit generalizing fuel with
  | nil => cases fuel <;> rfl
  | @cons record line written lines hLine _ ih =>
      obtain ⟨hFirst, hRest⟩ := List.forall_mem_cons.mp hSome
      obtain ⟨hHead, hTail⟩ := List.forall_mem_cons.mp hPortable
      rw [List.length_cons] at hFuel
      obtain ⟨fuel, rfl⟩ : ∃ less, fuel = less + 1 := ⟨fuel - 1, by omega⟩
      rw [List.flatten_cons, readRecords_emit hFirst hHead hLine, ih hRest hTail (by omega), List.map_cons]

/-- What was written is read back, record by record. -/
theorem records_lines {written : List Record} (hSome : ∀ record ∈ written, record ≠ [])
    (hPortable : ∀ record ∈ written, Portable (.object record)) {lines : List Bytes}
    (hEmit : written.mapM (fun record => emit (.object record)) = .ok lines) :
    records lines.flatten = written.map fun record => .ok record.sorted := by
  refine readRecords_lines hSome hPortable hEmit ?_
  rw [mapM_ok] at hEmit
  clear hSome hPortable
  induction hEmit with
  | nil => exact Nat.le_refl _
  | @cons record line written lines hLine _ ih =>
      obtain ⟨-, rfl, -⟩ := emit_ok.mp hLine
      rw [List.flatten_cons, List.length_cons, List.length_append, List.length_append, List.length_singleton]
      omega

/-- A line that is cut off is refused. -/
theorem readRecords_cut {record : Record} (hPortable : Portable (.object record)) {line : Bytes}
    (hEmit : emit (.object record) = .ok line) (fuel : Nat) {count : Nat} (hCount : count < line.length) :
    readRecords (fuel + 1) (line.take count) = [] ∨
      readRecords (fuel + 1) (line.take count) = [refuse (.invalid "Oversized or incomplete backup record")] := by
  obtain ⟨-, rfl, hLength⟩ := emit_ok.mp hEmit
  have hEnd := asciiEncode_line (canonicalText_ascii hPortable)
  generalize asciiEncode (canonicalText (.object record)) = content at hEnd hCount hLength ⊢
  rw [List.length_append, List.length_singleton] at hCount hLength
  have hTake : (content ++ [10]).take count = content.take count := List.take_append_of_le_length (by omega)
  have hNone : (10 : UInt8) ∉ content.take count := fun hMem => hEnd (List.mem_of_mem_take hMem)
  have hRead : readline (maxRecordBytes + 1) (content.take count) = content.take count := by
    have hAll : (content.take count).take (maxRecordBytes + 1) = content.take count :=
      List.take_of_length_le (by rw [List.length_take]; omega)
    rw [readline, hAll, if_neg hNone]
  rw [hTake, readRecords, hRead]
  split
  · exact .inl rfl
  · have hLast : (content.take count).getLast? ≠ some 10 := fun hTen => hNone (List.mem_of_getLast? hTen)
    rw [if_pos (.inr hLast)]
    exact .inr rfl

/-- A stream that is cut off has lost its last record. -/
theorem readRecords_take {written : List Record} (hSome : ∀ record ∈ written, record ≠ [])
    (hPortable : ∀ record ∈ written, Portable (.object record)) {lines : List Bytes}
    (hEmit : written.mapM (fun record => emit (.object record)) = .ok lines) (fuel count : Nat) (hFuel : count ≤ fuel)
    (hCount : count < lines.flatten.length) :
    ∃ kept lost tail, written = kept ++ lost ∧ lost ≠ [] ∧
      readRecords fuel (lines.flatten.take count) = kept.map (fun record => .ok record.sorted) ++ tail ∧
      (tail = [] ∨ tail = [refuse (.invalid "Oversized or incomplete backup record")]) := by
  rw [mapM_ok] at hEmit
  induction hEmit generalizing fuel count with
  | nil => cases hCount
  | @cons record line written lines hLine _ ih =>
      obtain ⟨hFirst, hRest⟩ := List.forall_mem_cons.mp hSome
      obtain ⟨hHead, hTail⟩ := List.forall_mem_cons.mp hPortable
      rw [List.flatten_cons, List.length_append] at hCount
      rw [List.flatten_cons]
      by_cases hCut : count < line.length
      · rw [List.take_append_of_le_length (Nat.le_of_lt hCut)]
        refine ⟨[], record :: written, _, rfl, List.cons_ne_nil _ _, rfl, ?_⟩
        cases fuel with
        | zero => exact .inl rfl
        | succ fuel => exact readRecords_cut hHead hLine fuel hCut
      · obtain ⟨more, rfl⟩ : ∃ more, count = line.length + more := ⟨count - line.length, by omega⟩
        have hLine' : 0 < line.length := by
          obtain ⟨-, rfl, -⟩ := emit_ok.mp hLine
          simp
        obtain ⟨fuel, rfl⟩ : ∃ less, fuel = less + 1 := ⟨fuel - 1, by omega⟩
        obtain ⟨kept, lost, tail, hSplit, hLost, hRead, hEnd⟩ := ih hRest hTail fuel more (by omega) (by omega)
        refine ⟨record :: kept, lost, tail, by rw [hSplit]; rfl, hLost, ?_, hEnd⟩
        rw [List.take_length_add_append, readRecords_emit hFirst hHead hLine, hRead]
        rfl

end Backup

end QsAi
