import QsAi.Time
import QsAi.Workflow.Archive
import QsAi.Foundation.TextEncoding
import QsAi.Foundation.Codec
import Mathlib.Algebra.Order.BigOperators.Group.List

/-! The codec of frozen state plans. Facts are written as canonical JSON behind a
magic that depends on the optional fields; reading ends with writing again, so
only the canonical bytes of some facts are accepted. -/
namespace QsAi

open PyJson TextEncoding BigEndian Guarded

/-- How reading can fail: the error every caller expects, or the one that the
conversion of a time to UTC raises outside the calendar. -/
inductive FactsRaise
  | valueError
  | overflowError
deriving DecidableEq

/-- The reader of times of the standard library: nothing is a refused text, and
a time without a zone is no time. -/
abbrev IsoReader := Text → Option (Option DateTime)

/-- The reader undoes the writer on times in UTC. -/
def IsoReader.Undoes (fromisoformat : IsoReader) : Prop :=
  ∀ time : DateTime, time.utcoffset = 0 → fromisoformat (text time.isoformatMicroseconds) = some (some time)

def maxVersion : Nat := 2 ^ 63 - 1

def refused {α : Type} : Except FactsRaise α := .error .valueError

/-- The value of an optional reading, or the expected error. -/
def orRefuse {α : Type} (value : Option α) : Except FactsRaise α := demand value .valueError

/-- A text member. -/
def textMember (fields : List (Text × Value)) (name : String) : Option Text :=
  match member fields name with
  | some (.string value) => some value
  | _ => none

/-- A member that is a string of characters. -/
def stringMember (fields : List (Text × Value)) (name : String) : Option String := (textMember fields name).bind encode

/-- A member that is an integer and not negative. -/
def natMember (fields : List (Text × Value)) (name : String) : Option Nat :=
  match member fields name with
  | some (.int value) => if 0 ≤ value then some value.toNat else none
  | _ => none

/-- The object has exactly these members. -/
def hasExactly (names : List String) (fields : List (Text × Value)) : Bool :=
  names.all (fun name => (fields.map (·.1)).contains (text name)) &&
    fields.all fun field => names.any fun name => field.1 == text name

/-- The members of the JSON object behind a magic, without repetitions. -/
def readObject (limit : Nat) (names : List String) (content : Bytes) : Except FactsRaise (List (Text × Value)) :=
  match loadsOctets distinct (some (limit + 1)) content with
  | .ok (.object fields) => if hasExactly names fields then .ok fields else refused
  | _ => refused

/-- The canonical bytes of an object. -/
def canonicalBytes (fields : List (String × Scalar)) : Bytes :=
  asciiEncode (printObject (fields.map fun field => (text field.1, field.2)))

/-- Reading ends with writing again: parse, build, compare. -/
def readBack {α β : Type} (parsed : Except FactsRaise α) (build : α → Except FactsRaise β)
    (encode : β → Except FactsRaise Bytes) (raw : Bytes) : Except FactsRaise β := do
  let arguments ← parsed
  let facts ← build arguments
  require (encode facts = .ok raw) .valueError
  pure facts

/-- What is read is written as the same bytes. -/
theorem readBack_encode {α β : Type} {parsed : Except FactsRaise α} {build : α → Except FactsRaise β}
    {encode : β → Except FactsRaise Bytes} {raw : Bytes} {facts : β} (h : readBack parsed build encode raw = .ok facts) :
    encode facts = .ok raw := by
  obtain ⟨arguments, -, h⟩ := (bind_ok _ _ _).mp h
  obtain ⟨built, -, h⟩ := (bind_ok _ _ _).mp h
  obtain ⟨hSame, h⟩ := (require_bind_ok _ _ _ _).mp h
  rw [← (pure_ok _ _).mp h]
  exact hSame

/-- The bytes of facts are read as these facts. -/
theorem readBack_self {α β : Type} {parsed : Except FactsRaise α} {build : α → Except FactsRaise β}
    {encode : β → Except FactsRaise Bytes} {raw : Bytes} {facts : β} {arguments : α} (hParsed : parsed = .ok arguments)
    (hBuild : build arguments = .ok facts) (hEncode : encode facts = .ok raw) :
    readBack parsed build encode raw = .ok facts := by
  unfold readBack
  rw [hParsed, ok_bind, hBuild, ok_bind, require_bind_pos hEncode]
  rfl

/-- Reading fails otherwise than expected exactly when building overflows. -/
theorem readBack_expected_iff {α β : Type} {parsed : Except FactsRaise α} {build : α → Except FactsRaise β}
    {encode : β → Except FactsRaise Bytes} {raw : Bytes} (hParsed : parsed ≠ .error .overflowError) :
    (readBack parsed build encode raw = .error .valueError ∨
      ∃ facts, readBack parsed build encode raw = .ok facts ∧ encode facts = .ok raw) ↔
      ∀ arguments, parsed = .ok arguments → build arguments ≠ .error .overflowError := by
  unfold readBack
  cases parsed with
  | error e =>
      have hExpected : e = .valueError := by
        cases e with
        | valueError => rfl
        | overflowError => exact absurd rfl hParsed
      subst hExpected
      simp [bind, Except.bind]
  | ok arguments =>
      simp only [ok_bind, Except.ok.injEq, forall_eq']
      cases hBuild : build arguments with
      | error e =>
          cases e with
          | valueError => simp [bind, Except.bind]
          | overflowError => simp [bind, Except.bind]
      | ok facts =>
          by_cases hEncode : encode facts = .ok raw
          · rw [ok_bind, require_bind_pos hEncode]
            simp [pure, Except.pure, hEncode]
          · rw [ok_bind, require_bind_neg hEncode]
            simp

theorem bind_expected {α β : Type} {first : Except FactsRaise α} {next : α → Except FactsRaise β}
    (hFirst : first ≠ .error .overflowError) (hNext : ∀ value, next value ≠ .error .overflowError) :
    first >>= next ≠ .error .overflowError := by
  cases first with
  | error e =>
      intro h
      exact hFirst (by rw [Except.error.inj h])
  | ok value => exact hNext value

theorem require_expected (condition : Prop) [Decidable condition] :
    require condition FactsRaise.valueError ≠ .error .overflowError := by
  unfold require
  split
  · exact nofun
  · exact nofun

theorem orRefuse_expected {α : Type} (value : Option α) : orRefuse value ≠ .error .overflowError := by
  cases value with
  | none => exact nofun
  | some value => exact nofun

theorem readObject_expected (limit : Nat) (names : List String) (content : Bytes) :
    readObject limit names content ≠ .error .overflowError := by
  unfold readObject
  split
  · split
    · exact nofun
    · exact nofun
  · exact nofun

theorem plain_ascii {value : Text} (h : PyJson.Plain value) : ∀ c ∈ value, c < 0x80 := by
  intro c hc
  have hPlain := h c hc
  simp only [plainCode, Bool.and_eq_true, decide_eq_true_eq] at hPlain
  omega

theorem print_ascii {value : Scalar} (h : value.Plain) : ∀ c ∈ value.print, c < 0x80 := by
  cases value with
  | string value =>
      intro c hc
      simp only [Scalar.print, List.cons_append, List.mem_cons, List.mem_append, List.not_mem_nil, or_false] at hc
      rcases hc with rfl | hc | rfl
      · decide
      · exact plain_ascii h c hc
      · decide
  | nat value => exact plain_ascii (printNat_plain value)

theorem printFields_ascii {fields : List (Text × Scalar)} (h : Printable fields) : ∀ c ∈ printFields fields, c < 0x80 := by
  fun_induction printFields fields with
  | case1 => simp
  | case2 key value =>
      obtain ⟨hKey, hValue⟩ := h (key, value) (by simp)
      intro c hc
      simp only [List.cons_append, List.append_assoc, List.mem_cons, List.mem_append, List.not_mem_nil, or_false] at hc
      rcases hc with rfl | hc | rfl | rfl | hc | rfl
      · decide
      · exact plain_ascii hKey c hc
      · decide
      · decide
      · exact print_ascii hValue c hc
      · decide
  | case3 key value next rest ih =>
      obtain ⟨hKey, hValue⟩ := h (key, value) (by simp)
      have hRest := ih fun field hField => h field (by simp [hField])
      intro c hc
      simp only [List.cons_append, List.append_assoc, List.mem_cons, List.mem_append] at hc
      rcases hc with rfl | hc | rfl | rfl | hc | rfl | hc
      · decide
      · exact plain_ascii hKey c hc
      · decide
      · decide
      · exact print_ascii hValue c hc
      · decide
      · exact hRest c hc

/-- Members that are read back under their names. -/
structure Writable (fields : List (String × Scalar)) (names : List String) : Prop where
  nonempty : fields ≠ []
  named : fields.map (·.1) = names
  distinct : names.Nodup
  plain : ∀ name ∈ names, PyJson.Plain (text name) ∧ name.toList.length ≤ 20
  values : ∀ field ∈ fields, field.2.Plain

theorem Writable.printable {fields : List (String × Scalar)} {names : List String} (h : Writable fields names) :
    Printable (fields.map fun field => (text field.1, field.2)) := by
  intro field hField
  obtain ⟨source, hSource, rfl⟩ := List.mem_map.mp hField
  refine ⟨(h.plain source.1 ?_).1, h.values source hSource⟩
  rw [← h.named]
  exact List.mem_map_of_mem hSource

/-- What the reader finds. -/
def readMembers (fields : List (String × Scalar)) : List (Text × Value) :=
  fields.map fun field => (text field.1, field.2.value)

/-- The canonical bytes of distinct members are read as these members. -/
theorem readObject_canonical {fields : List (String × Scalar)} {names : List String} (limit : Nat)
    (h : Writable fields names) : readObject limit names (canonicalBytes fields) = .ok (readMembers fields) := by
  have hPrintable := h.printable
  have hMembers : members (fields.map fun field => (text field.1, field.2)) = readMembers fields := by
    rw [members, List.map_map]
    rfl
  have hKeys : (readMembers fields).map (·.1) = names.map text := by
    rw [readMembers, List.map_map, ← h.named, List.map_map]
    rfl
  have hUnique : ((readMembers fields).map (·.1)).Nodup := by
    rw [hKeys]
    exact h.distinct.map fun a b hSame => text_inj.mp hSame
  have hQuote : ∃ rest, printObject (fields.map fun field => (text field.1, field.2)) = 123 :: 34 :: rest := by
    cases hFields : fields with
    | nil => exact absurd hFields h.nonempty
    | cons field fields =>
        cases fields with
        | nil => exact ⟨_, rfl⟩
        | cons next fields => exact ⟨_, rfl⟩
  obtain ⟨rest, hRest⟩ := hQuote
  have hAscii : ∀ c ∈ rest, c < 0x80 := by
    intro c hc
    refine printFields_ascii hPrintable c ?_
    rw [show printFields _ = 34 :: rest from (List.cons.inj hRest).2]
    exact List.mem_cons_of_mem _ hc
  have hSome : (fields.map fun field => (text field.1, field.2)) ≠ [] := by simpa using h.nonempty
  have hLoads : loadsOctets distinct (some (limit + 1)) (canonicalBytes fields) = .ok (.object (readMembers fields)) := by
    rw [canonicalBytes, hRest, loadsOctets_asciiEncode hAscii, ← hRest, loads_printObject hSome hPrintable, hMembers,
      distinct, if_pos hUnique]
  have hExactly : hasExactly names (readMembers fields) = true := by
    rw [hasExactly, Bool.and_eq_true, List.all_eq_true, List.all_eq_true, hKeys]
    constructor
    · intro name hName
      rw [List.contains_iff_mem]
      exact List.mem_map_of_mem hName
    · intro field hField
      have hMem : field.1 ∈ names.map text := by
        rw [← hKeys]
        exact List.mem_map_of_mem hField
      obtain ⟨name, hName, hSame⟩ := List.mem_map.mp hMem
      rw [List.any_eq_true]
      exact ⟨name, hName, by simp [hSame]⟩
  rw [readObject, hLoads]
  simp only [hExactly, if_true]

@[simp] theorem readMembers_cons (name : String) (value : Scalar) (rest : List (String × Scalar)) :
    readMembers ((name, value) :: rest) = (text name, value.value) :: readMembers rest := rfl

@[simp] theorem readMembers_nil : readMembers [] = [] := rfl

theorem stringMember_text {fields : List (Text × Value)} {name value : String}
    (h : member fields name = some (.string (text value))) : stringMember fields name = some value := by
  simp [stringMember, textMember, h]

theorem natMember_int {fields : List (Text × Value)} {name : String} {value : Nat}
    (h : member fields name = some (.int value)) : natMember fields name = some value := by
  simp [natMember, h]

/-- Texts of small characters other than quotes and backslashes. -/
theorem text_plain {value : String} (h : ∀ c ∈ value.toList, 43 ≤ c.toNat ∧ c.toNat ≤ 122 ∧ c.toNat ≠ 92) :
    PyJson.Plain (text value) := by
  intro code hCode
  obtain ⟨c, hc, rfl⟩ := List.mem_map.mp hCode
  obtain ⟨hLow, hHigh, hSlash⟩ := h c hc
  simp only [plainCode, Bool.and_eq_true, decide_eq_true_eq, bne_iff_ne]
  omega

theorem validNumber_plain {value : String} (h : validNumber value = true) : PyJson.Plain (text value) := by
  refine text_plain fun c hc => ?_
  have hCode := (codes_of_validNumber h).2 c hc
  omega

theorem validMessageId_plain {value : String} (h : validMessageId value = true) : PyJson.Plain (text value) := by
  refine text_plain fun c hc => ?_
  have hCode := (codes_of_validMessageId h).2 c hc
  omega

theorem validId_plain {value : String} (h : validId value = true) : PyJson.Plain (text value) := by
  refine text_plain fun c hc => ?_
  have hCode := codes_of_validId h c hc
  omega

theorem iso_plain {time : DateTime} (h : time.utcoffset = 0) : PyJson.Plain (text time.isoformatMicroseconds) := by
  refine text_plain fun c hc => ?_
  have hCode := (DateTime.isoformatMicroseconds_utc h).2 c hc
  omega

theorem length_printVersion {value : Nat} (h : value < maxVersion) : (printNat value).length ≤ 19 :=
  length_printNat (by decide) (h.trans (by decide))

theorem version_plain {value : Nat} (h : value < maxVersion) : (Scalar.nat value).Plain :=
  (length_printVersion h).trans (by decide)

/-- No magic of a state starts another one. -/
def stateMagics : List Bytes :=
  ["qs-ai-evaluation-state/v1", "qs-ai-evaluation-state/v2", "qs-ai-evaluation-state/v3", "qs-ai-interpretation-state/v1",
    "qs-ai-interpretation-state/v2"].map fun magic => asciiBytes magic ++ [0]

theorem stateMagics_apart : ∀ magic ∈ stateMagics, ∀ other ∈ stateMagics, magic <+: other → magic = other := by decide

/-- At most one magic starts given bytes. -/
theorem stateMagics_unique {magic other raw : Bytes} (hMagic : magic ∈ stateMagics) (hOther : other ∈ stateMagics)
    (hStarts : magic <+: raw) (hOtherStarts : other <+: raw) : magic = other := by
  rcases List.prefix_or_prefix_of_prefix hStarts hOtherStarts with h | h
  · exact stateMagics_apart magic hMagic other hOther h
  · exact (stateMagics_apart other hOther magic hMagic h).symm

/-! Lengths. A printed object is as long as its members. -/

theorem length_printFields (fields : List (Text × Scalar)) :
    (printFields fields).length ≤ 1 + (fields.map fun field => field.1.length + field.2.print.length + 4).sum := by
  fun_induction printFields fields with
  | case1 => simp
  | case2 key value => simp; omega
  | case3 key value next rest ih => simp at ih ⊢; omega

/-- How much room members with short names take in an object. -/
def room (fields : List (String × Scalar)) : Nat := (fields.map fun field => field.2.print.length + 24).sum

@[simp] theorem room_nil : room [] = 0 := rfl

@[simp] theorem room_cons (name : String) (value : Scalar) (rest : List (String × Scalar)) :
    room ((name, value) :: rest) = value.print.length + 24 + room rest := by
  simp [room]

@[simp] theorem room_append (first rest : List (String × Scalar)) : room (first ++ rest) = room first + room rest := by
  simp [room]

theorem room_optional (written : Bool) (fields : List (String × Scalar)) : room (if written then fields else []) ≤ room fields := by
  cases written <;> simp

@[simp] theorem length_printString (value : Text) : List.length (Scalar.string value).print = List.length value + 2 := by
  simp [Scalar.print]

@[simp] theorem length_printNumber (value : Nat) : List.length (Scalar.nat value).print = (printNat value).length := rfl

theorem length_text (value : String) : List.length (text value) = value.toList.length := List.length_map _

theorem length_canonicalBytes {fields : List (String × Scalar)} {names : List String} (h : Writable fields names) :
    (canonicalBytes fields).length ≤ 2 + room fields := by
  have hFields := length_printFields (fields.map fun field => (text field.1, field.2))
  have hShort : ((fields.map fun field => (text field.1, field.2)).map fun field =>
      field.1.length + field.2.print.length + 4).sum ≤ room fields := by
    rw [List.map_map]
    refine List.sum_le_sum fun field hField => ?_
    have hName : field.1 ∈ names := by
      rw [← h.named]
      exact List.mem_map_of_mem hField
    have hLength := (h.plain field.1 hName).2
    simp only [Function.comp_apply, length_text]
    omega
  rw [canonicalBytes, asciiEncode, List.length_map, printObject, List.length_cons]
  omega

end QsAi
