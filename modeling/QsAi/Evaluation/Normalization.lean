import QsAi.Foundation.JsonExtent
import QsAi.Text

/-! The reviewed wrappers of a provider's answer. A code fence and an envelope
with one field are taken off before the answer is validated; nothing inside
them is repaired. -/
namespace QsAi

open Guarded PyJson

inductive Normalization
  | unchanged
  | markdownUnwrapped
  | envelopeUnwrapped
deriving DecidableEq, Repr

structure NormalizedOutput where
  rawOutput : Text
  validationOutput : Text
  normalization : Normalization

/-- What normalisation takes from the interpreter: how letters are lowered, and
how deep objects may nest where a text is read and where a part of it is. -/
structure Normalizer where
  lower : Text → Text
  depth : Nat
  innerDepth : Nat
  inner : depth ≤ innerDepth + 1

def lstrip (value : Text) : Text := value.dropWhile isSpaceCode

/-- The last place of a text in another one. -/
def rfind (needle : Text) : Text → Option Nat
  | [] => if needle = [] then some 0 else none
  | c :: rest =>
      match rfind needle rest with
      | some index => some (index + 1)
      | none => if needle.isPrefixOf (c :: rest) then some 0 else none

namespace Normalizer

variable (normalizer : Normalizer)

/-- The object that a text spells with unique keys, if it spells one. A text
that nests too deeply is not caught. -/
def object (raw : Text) : Except Refusal (Option (List (Text × Value))) :=
  match loads distinct (some normalizer.depth) raw with
  | .ok (.object fields) => .ok (some fields)
  | .ok _ => .ok none
  | .error .malformed => .ok none
  | .error .tooDeep => .error .tooDeep

/-- The value at a place of a text, and where it ends. -/
def rawDecode (raw : Text) (index : Nat) : Except Refusal (Value × Nat) := do
  let (value, rest) ← scanValue overwrite (2 * raw.length + 2) (some normalizer.innerDepth) (raw.drop index)
  pure (value, raw.length - rest.length)

/-- The text of the only value of an envelope, found by offsets. -/
def innerObject (raw : Text) : Except Refusal Text := do
  let keyStart := raw.length - (lstrip (raw.drop 1)).length
  let (_, keyEnd) ← normalizer.rawDecode raw keyStart
  let colon ← demand ((raw.drop keyEnd).findIdx? (· == 58)) .malformed
  let valueStart := keyEnd + colon + 1
  let valueStart := valueStart + ((raw.drop valueStart).length - (lstrip (raw.drop valueStart)).length)
  let (_, valueEnd) ← normalizer.rawDecode raw valueStart
  pure ((raw.take valueEnd).drop valueStart)

/-- What stands between the lines of a code fence. -/
def fenced (candidate : Text) : Option Text :=
  match candidate.findIdx? (· == 10), rfind (text "\n```") candidate with
  | some opening, some closing =>
      if normalizer.lower (stripText (candidate.take opening)) = text "```json" ∧ opening < closing ∧
          stripText (candidate.drop (closing + 1)) = text "```" then
        some (stripText ((candidate.take closing).drop (opening + 1)))
      else none
  | _, _ => none

/-- The answer without its fence, when that encloses an object. -/
def candidate (raw : Text) : Except Refusal (Text × Normalization) :=
  match normalizer.fenced (stripText raw) with
  | none => pure (stripText raw, .unchanged)
  | some enclosed => do
      let found ← normalizer.object enclosed
      pure (if found.isSome then (enclosed, .markdownUnwrapped) else (stripText raw, .unchanged))

/-- The keys of the reviewed envelopes, one after the other. -/
def unwrap (candidate : Text) (envelope : List (Text × Value)) : List String → Except Refusal (Option Text)
  | [] => pure none
  | key :: keys =>
      match envelope.lookup (text key) with
      | none => unwrap candidate envelope keys
      | some value =>
          if key = "json_string" then
            match value with
            | .string value => do
                let found ← normalizer.object (stripText value)
                if found.isSome then pure (some (stripText value)) else unwrap candidate envelope keys
            | _ => unwrap candidate envelope keys
          else
            match value with
            | .object _ => do
                let inner ← normalizer.innerObject candidate
                pure (some inner)
            | _ => unwrap candidate envelope keys

/-- The envelope is opened when it has one field. -/
def opened (candidate : Text) : Option (List (Text × Value)) → Except Refusal (Option Text)
  | some [field] => normalizer.unwrap candidate [field] ["parameters", "json", "json_string"]
  | _ => pure none

def normalizeOutput (provider : String) (raw : Text) : Except Refusal NormalizedOutput :=
  if provider ≠ "deepseek" then pure ⟨raw, raw, .unchanged⟩
  else do
    let (candidate, kind) ← normalizer.candidate raw
    let envelope ← normalizer.object candidate
    let inner ← normalizer.opened candidate envelope
    match inner with
    | some inner => pure ⟨raw, inner, .envelopeUnwrapped⟩
    | none => pure (if kind = .unchanged then ⟨raw, raw, .unchanged⟩ else ⟨raw, candidate, kind⟩)

end Normalizer

/-! The wrappers in their own terms. -/

/-- An answer between the lines of a code fence for JSON. -/
def Fence (lower : Text → Text) (answer enclosed : Text) : Prop :=
  ∃ head body, answer = head ++ 10 :: (body ++ text "\n```") ∧ 10 ∉ head ∧
    lower (stripText head) = text "```json" ∧ enclosed = stripText body

theorem rfind_some {needle value : Text} {index : Nat} (h : rfind needle value = some index) :
    ∃ before after, value = before ++ (needle ++ after) ∧ before.length = index := by
  induction value generalizing index with
  | nil =>
      rw [rfind] at h
      split at h
      · rename_i hEmpty
        cases h
        exact ⟨[], [], by rw [hEmpty]; rfl, rfl⟩
      · cases h
  | cons c rest ih =>
      rw [rfind] at h
      cases hRest : rfind needle rest with
      | some found =>
          rw [hRest] at h
          cases h
          obtain ⟨before, after, hValue, hLength⟩ := ih hRest
          exact ⟨c :: before, after, by rw [hValue, List.cons_append], by rw [List.length_cons, hLength]⟩
      | none =>
          rw [hRest] at h
          simp only at h
          split at h
          · rename_i hStarts
            cases h
            obtain ⟨after, hAfter⟩ := List.isPrefixOf_iff_prefix.mp hStarts
            exact ⟨[], after, hAfter.symm, rfl⟩
          · cases h

/-- The line that closes a fence occurs last at the end. -/
theorem rfind_closing (before : Text) : rfind (text "\n```") (before ++ text "\n```") = some before.length := by
  induction before with
  | nil => decide
  | cons c before ih => rw [List.cons_append, rfind, ih, List.length_cons]

theorem closing_eq : text "\n```" = 10 :: text "```" := by decide

theorem findNewline {value : Text} {index : Nat} :
    value.findIdx? (· == 10) = some index ↔ ∃ head tail, value = head ++ 10 :: tail ∧ 10 ∉ head ∧ head.length = index := by
  induction value generalizing index with
  | nil => simp
  | cons c rest ih =>
      rw [List.findIdx?_cons]
      by_cases hLine : c = 10
      · subst hLine
        simp only [beq_self_eq_true, if_true, Option.some.injEq]
        constructor
        · rintro rfl
          exact ⟨[], rest, rfl, by simp, rfl⟩
        · rintro ⟨head, tail, hValue, hFree, rfl⟩
          cases head with
          | nil => rfl
          | cons d head =>
              cases hValue
              exact absurd List.mem_cons_self hFree
      · simp only [beq_eq_false_iff_ne.mpr hLine, Bool.false_eq_true, if_false, Option.map_eq_some_iff]
        constructor
        · rintro ⟨found, hFound, rfl⟩
          obtain ⟨head, tail, rfl, hFree, rfl⟩ := ih.mp hFound
          exact ⟨c :: head, tail, rfl, by simpa [Ne.symm hLine] using hFree, rfl⟩
        · rintro ⟨head, tail, hValue, hFree, rfl⟩
          cases head with
          | nil =>
              cases hValue
              exact absurd rfl hLine
          | cons d head =>
              cases hValue
              exact ⟨head.length, ih.mpr ⟨head, tail, rfl, fun hMem => hFree (List.mem_cons_of_mem _ hMem), rfl⟩, rfl⟩

/-- A stripped text does not end with space. -/
theorem stripText_last (raw : Text) : ∀ c ∈ (stripText raw).getLast?, isSpaceCode c = false := by
  intro c hc
  have hNot := List.head?_dropWhile_not isSpaceCode (raw.dropWhile isSpaceCode).reverse
  rw [stripText, List.getLast?_reverse] at hc
  rw [hc] at hNot
  simpa using hNot

theorem stripText_closing {rest : Text} (hLast : ∀ c ∈ (text "```" ++ rest).getLast?, isSpaceCode c = false) :
    stripText (text "```" ++ rest) = text "```" ++ rest := by
  have hStart : (text "```" ++ rest).dropWhile isSpaceCode = text "```" ++ rest := by
    rw [show text "```" = [96, 96, 96] from by decide]
    rfl
  rw [stripText, hStart]
  cases hReverse : (text "```" ++ rest).reverse with
  | nil => exact absurd (List.append_eq_nil_iff.mp (List.reverse_eq_nil_iff.mp hReverse)).1 (by decide)
  | cons c tail =>
      have hSome : c ∈ (text "```" ++ rest).getLast? := by rw [← List.head?_reverse, hReverse]; rfl
      rw [List.dropWhile_cons, hLast c hSome, if_neg Bool.false_ne_true, ← hReverse, List.reverse_reverse]

/-- The slice between two lines. -/
theorem slice_lines (head body rest : Text) :
    ((head ++ 10 :: (body ++ rest)).take (head ++ 10 :: body).length).drop (head.length + 1) = body := by
  have hTake : (head ++ 10 :: (body ++ rest)).take (head ++ 10 :: body).length = head ++ 10 :: body := by
    rw [← List.cons_append, ← List.append_assoc]
    exact List.take_left' rfl
  rw [hTake, show head ++ 10 :: body = (head ++ [10]) ++ body by simp]
  exact List.drop_left' (by simp)

namespace Normalizer

variable {normalizer : Normalizer}

theorem fenced_iff {answer enclosed : Text} (hLast : ∀ c ∈ answer.getLast?, isSpaceCode c = false) :
    normalizer.fenced answer = some enclosed ↔ Fence normalizer.lower answer enclosed := by
  constructor
  · intro h
    rw [fenced] at h
    split at h
    · rename_i opening closing hOpening hClosing
      split at h
      · rename_i hFence
        obtain ⟨hHead, hOrder, hEnd⟩ := hFence
        cases h
        obtain ⟨head, tail, hAnswer, hFree, rfl⟩ := findNewline.mp hOpening
        obtain ⟨before, after, rfl, rfl⟩ := rfind_some hClosing
        rw [closing_eq, List.cons_append] at hLast hEnd hAnswer
        -- nothing but space follows the closing line, and the answer does not end with space
        have hDrop : (before ++ 10 :: (text "```" ++ after)).drop (before.length + 1) = text "```" ++ after := by simp
        have hTail : (before ++ 10 :: (text "```" ++ after)).getLast? = (text "```" ++ after).getLast? := by
          rw [← List.singleton_append, ← List.append_assoc, List.getLast?_append_of_ne_nil]
          simp [text]
        rw [hTail] at hLast
        rw [hDrop, stripText_closing hLast] at hEnd
        obtain rfl : after = [] := by simpa using hEnd
        rw [List.append_nil] at hAnswer
        -- the opening line ends before the closing line
        rcases List.append_eq_append_iff.mp hAnswer with ⟨extra, hBefore, hRest⟩ | ⟨extra, hBefore, hRest⟩
        · rw [hBefore, List.length_append] at hOrder
          omega
        · cases extra with
          | nil =>
              rw [hBefore, List.append_nil] at hOrder
              exact absurd hOrder (lt_irrefl _)
          | cons c body =>
              cases (List.cons.inj hRest).1
              refine ⟨head, body, ?_, hFree, ?_, ?_⟩
              · rw [closing_eq, List.append_nil, hBefore]
                simp
              · rw [← hHead, hBefore]
                simp
              · rw [hBefore, List.append_nil, List.append_assoc, List.cons_append, slice_lines]
      · cases h
    · cases h
  · rintro ⟨head, body, rfl, hFree, hHead, rfl⟩
    have hOpening := findNewline.mpr ⟨head, body ++ text "\n```", rfl, hFree, rfl⟩
    have hClosing := rfind_closing (head ++ 10 :: body)
    rw [List.append_assoc, List.cons_append] at hClosing
    have hTake : (head ++ 10 :: (body ++ text "\n```")).take head.length = head := List.take_left' rfl
    have hDrop : (head ++ 10 :: (body ++ text "\n```")).drop ((head ++ 10 :: body).length + 1) = text "```" := by
      rw [closing_eq, show head ++ 10 :: (body ++ 10 :: text "```") = (head ++ 10 :: body ++ [10]) ++ text "```" by simp]
      refine List.drop_left' ?_
      simp only [List.length_append, List.length_cons, List.length_nil, Nat.add_assoc]
    rw [fenced, hOpening, hClosing]
    simp only [hTake, hDrop, slice_lines]
    rw [if_pos ⟨hHead, by simp, by decide⟩]

/-! The envelope. -/

theorem scanFields_ne_nil {fuel : Nat} {depth : Option Nat} {input rest : Text} {fields : List (Text × Value)}
    (h : scanFields distinct fuel depth input = .ok (fields, rest)) : fields ≠ [] := by
  obtain ⟨_, _, _, _, _, _, _, _, _, _, _, _, ⟨_, rfl⟩ | ⟨_, _, _, _, rfl⟩⟩ := scanFields_some h <;> simp

/-- The layout of an object with one field. -/
theorem loads_single {depth : Nat} {raw key : Text} {value : Value}
    (h : loads distinct (some depth) raw = .ok (.object [(key, value)])) :
    ∃ fuel inner tail word afterKey afterColon afterValue rest, deeper (some depth) = some inner ∧
      skipSpace raw = 123 :: tail ∧ skipSpace tail = 34 :: word ∧ scanString word = .ok (key, afterKey) ∧
      skipSpace afterKey = 58 :: afterColon ∧
      scanValue distinct fuel inner (skipSpace afterColon) = .ok (value, afterValue) ∧
      skipSpace afterValue = 125 :: rest ∧ skipSpace rest = [] := by
  rw [loads] at h
  split at h
  · cases h
  rw [decode, bind_ok] at h
  obtain ⟨⟨found, rest⟩, hFound, h⟩ := h
  simp only at h
  split at h
  swap
  · cases h
  rename_i hRest
  cases h
  obtain ⟨tail, hBrace⟩ := object_brace hFound
  rw [hBrace] at hFound
  obtain ⟨inner, hDeeper, ⟨_, hHook⟩ | ⟨_, fields, hFields, hHook⟩⟩ := scanValue_brace hFound
  · cases hHook
  rw [distinct] at hHook
  split at hHook
  swap
  · cases hHook
  cases hHook
  obtain ⟨less, word, found, afterKey, afterColon, item, left, _, hWord, hKey, hColon, hValue, hShape⟩ := scanFields_some hFields
  rcases hShape with ⟨hEnd, hSame⟩ | ⟨_, others, _, hOthers, hSame⟩
  · cases hSame
    exact ⟨less, inner, tail, word, afterKey, afterColon, left, rest, hDeeper, hBrace, hWord, hKey, hColon, hValue, hEnd, hRest⟩
  · cases hSame
    exact absurd rfl (scanFields_ne_nil hOthers)

theorem lstrip_eq_skipSpace {input rest : Text} {c : Nat} (h : skipSpace input = c :: rest) (hc : isSpaceCode c = false) :
    lstrip input = c :: rest := by
  obtain ⟨space, rfl, hSpace, _⟩ := skipSpace_extent h
  have hAll : ∀ d ∈ space, isSpaceCode d = true := by
    intro d hd
    rcases hSpace d hd with rfl | rfl | rfl | rfl <;> decide
  rw [lstrip, List.dropWhile_append_of_pos hAll, List.dropWhile_cons, hc, if_neg Bool.false_ne_true]

theorem isSpaceCode_value {c : Nat} (h : 34 ≤ c ∧ c ≤ 123) : isSpaceCode c = false := by
  simp only [isSpaceCode, Bool.or_eq_false_iff, Bool.and_eq_false_iff, decide_eq_false_iff_not, beq_eq_false_iff_ne]
  omega

/-- Between a key and its colon there is only space. -/
theorem findColon {gap : Text} (hGap : ∀ d ∈ gap, d = 32 ∨ d = 9 ∨ d = 10 ∨ d = 13) (rest : Text) :
    (gap ++ 58 :: rest).findIdx? (· == 58) = some gap.length := by
  induction gap with
  | nil => rfl
  | cons d gap ih =>
      have hOther : (d == 58) = false := by
        rcases hGap d List.mem_cons_self with rfl | rfl | rfl | rfl <;> rfl
      rw [List.cons_append, List.findIdx?_cons, hOther, ih fun e he => hGap e (List.mem_cons_of_mem _ he)]
      rfl

theorem drop_suffix {raw rest : Text} (h : rest <:+ raw) : raw.drop (raw.length - rest.length) = rest :=
  (List.suffix_iff_eq_drop.mp h).symm

theorem suffix_of_skipSpace {input rest : Text} (h : skipSpace input = rest) : rest <:+ input :=
  h ▸ List.dropWhile_suffix _

/-- The offsets find the text of the only value of the envelope. -/
theorem innerObject_eq {raw key : Text} {value : Value} (hStart : skipSpace raw = raw)
    (h : loads distinct (some normalizer.depth) raw = .ok (.object [(key, value)])) :
    ∃ before inner after rest, normalizer.innerObject raw = .ok inner ∧ raw = before ++ (inner ++ after) ∧
      skipSpace after = 125 :: rest ∧ skipSpace rest = [] ∧ loads distinct (some normalizer.depth) inner = .ok value := by
  obtain ⟨fuel, inner, tail, word, afterKey, afterColon, afterValue, rest, hDeeper, hRaw, hTail, hKey, hColon, hValue, hClose,
    hRest⟩ := loads_single h
  rw [hStart] at hRaw
  have hInner : Allows (some normalizer.innerDepth) inner := by
    cases hDepth : normalizer.depth with
    | zero =>
        rw [hDepth] at hDeeper
        cases hDeeper
    | succ depth =>
        rw [hDepth] at hDeeper
        obtain rfl := Option.some.inj hDeeper
        have hBound := normalizer.inner
        rintro most ⟨⟩
        exact ⟨depth, rfl, by omega⟩
  have hLess : Allows (some normalizer.depth) inner := by
    cases hDepth : normalizer.depth with
    | zero =>
        rw [hDepth] at hDeeper
        cases hDeeper
    | succ depth =>
        rw [hDepth] at hDeeper
        obtain rfl := Option.some.inj hDeeper
        rintro most ⟨⟩
        exact ⟨depth, rfl, by omega⟩
  -- the texts that are left behind are suffixes of the envelope
  have hTailOf : tail <:+ raw := hRaw ▸ List.suffix_cons 123 tail
  have hQuoteOf : 34 :: word <:+ raw := (suffix_of_skipSpace hTail).trans hTailOf
  have hAfterKeyOf : afterKey <:+ raw := by
    obtain ⟨extent, hExtent, _⟩ := scanString_extent hKey
    have hWordOf : word <:+ 34 :: word := List.suffix_cons 34 word
    exact (hExtent ▸ List.suffix_append extent afterKey).trans (hWordOf.trans hQuoteOf)
  obtain ⟨gap, hGap, hGapSpace, _⟩ := skipSpace_extent hColon
  obtain ⟨extent, hExtent, hSome, hAgain⟩ := (scan_extent (fun _ _ => overwrite_of_distinct) fuel).1 hValue
  obtain ⟨alone, hAlone, _, hLoads⟩ := loads_extent (fun _ _ hFields => hFields) hLess hValue
  obtain rfl : extent = alone := List.append_cancel_right (hExtent.symm.trans hAlone)
  have hColonOf : 58 :: afterColon <:+ afterKey := suffix_of_skipSpace hColon
  have hAfterColonOf : afterColon <:+ raw := (List.suffix_cons 58 afterColon).trans (hColonOf.trans hAfterKeyOf)
  have hValueOf : skipSpace afterColon <:+ raw := (suffix_of_skipSpace rfl).trans hAfterColonOf
  have hAfterValueOf : afterValue <:+ raw := by
    rw [hExtent] at hValueOf
    exact (List.suffix_append extent afterValue).trans hValueOf
  -- the key
  have hKeyPlace : lstrip (raw.drop 1) = 34 :: word := by
    rw [hRaw, List.drop_one, List.tail_cons]
    exact lstrip_eq_skipSpace hTail (by decide)
  have hKeyRead : normalizer.rawDecode raw (raw.length - (lstrip (raw.drop 1)).length) =
      .ok (.string key, raw.length - afterKey.length) := by
    rw [rawDecode, hKeyPlace, drop_suffix hQuoteOf, scanValue, if_pos rfl, hKey]
    rfl
  -- the colon
  have hColonPlace : (raw.drop (raw.length - afterKey.length)).findIdx? (· == 58) = some gap.length := by
    rw [drop_suffix hAfterKeyOf, hGap]
    exact findColon hGapSpace afterColon
  have hAfterColon : raw.drop (raw.length - afterKey.length + gap.length + 1) = afterColon := by
    rw [Nat.add_assoc, ← List.drop_drop, drop_suffix hAfterKeyOf, hGap,
      show gap ++ 58 :: afterColon = (gap ++ [58]) ++ afterColon by simp]
    exact List.drop_left' (by simp)
  -- the value
  have hLead : lstrip afterColon = skipSpace afterColon := by
    obtain ⟨c, more, hFirst, hBounds⟩ := scanValue_starts hValue
    rw [hFirst]
    exact lstrip_eq_skipSpace hFirst (isSpaceCode_value hBounds)
  obtain ⟨start, hStartEq⟩ : ∃ start, start = raw.length - afterKey.length + gap.length + 1 +
      (afterColon.length - (skipSpace afterColon).length) := ⟨_, rfl⟩
  have hValuePlace : raw.drop start = extent ++ afterValue := by
    rw [hStartEq, ← List.drop_drop, hAfterColon, drop_suffix (suffix_of_skipSpace rfl), hExtent]
  have hStops : Stops afterValue := by
    obtain ⟨space, rfl, hSpace, _⟩ := skipSpace_extent hClose
    exact stops_space hSpace (.inr (.inr rfl)) rest
  have hLengths : raw.length - start = extent.length + afterValue.length := by
    rw [← List.length_drop, hValuePlace, List.length_append]
  have hSomeLength : 0 < extent.length := List.length_pos_iff.mpr hSome
  have hValueRead : normalizer.rawDecode raw start = .ok (value, raw.length - afterValue.length) := by
    rw [rawDecode, hValuePlace, hAgain (by omega) hInner hStops]
    rfl
  have hSlice : (raw.take (raw.length - afterValue.length)).drop start = extent := by
    rw [List.drop_take, hValuePlace, show raw.length - afterValue.length - start = extent.length by omega]
    exact List.take_left' rfl
  refine ⟨raw.take start, extent, afterValue, rest, ?_, ?_, hClose, hRest, hLoads⟩
  · rw [innerObject, hKeyRead]
    simp only [bind_ok, demand_ok]
    refine ⟨_, rfl, gap.length, hColonPlace, ?_⟩
    simp only [hAfterColon, hLead, ← hStartEq]
    exact ⟨_, hValueRead, congrArg Except.ok hSlice⟩
  · rw [← hValuePlace, List.take_append_drop]

/-! What the wrappers enclose. -/

/-- The text spells an object with unique keys. -/
def Reads (normalizer : Normalizer) (raw : Text) (fields : List (Text × Value)) : Prop :=
  loads distinct (some normalizer.depth) raw = .ok (.object fields)

/-- The text nests deeper than the interpreter allows, before it is seen not to
be JSON. -/
def TooDeep (normalizer : Normalizer) (raw : Text) : Prop := loads distinct (some normalizer.depth) raw = .error .tooDeep

/-- The answer inside its fence, if that encloses an object, else the answer. -/
inductive Answer (normalizer : Normalizer) (raw : Text) : Text → Normalization → Prop
  | fenced {enclosed : Text} {fields : List (Text × Value)} (hFence : Fence normalizer.lower (stripText raw) enclosed)
      (hReads : normalizer.Reads enclosed fields) : Answer normalizer raw enclosed .markdownUnwrapped
  | plain (hNone : ∀ enclosed fields, Fence normalizer.lower (stripText raw) enclosed → ¬ normalizer.Reads enclosed fields) :
      Answer normalizer raw (stripText raw) .unchanged

/-- The object in an envelope with one field, or in the string of one. -/
inductive Opens (normalizer : Normalizer) (candidate : Text) : Text → List (Text × Value) → Prop
  | object {key before inner after rest : Text} {fields : List (Text × Value)}
      (hKey : key = text "parameters" ∨ key = text "json") (hReads : normalizer.Reads candidate [(key, .object fields)])
      (hCandidate : candidate = before ++ (inner ++ after)) (hClose : skipSpace after = 125 :: rest)
      (hEnd : skipSpace rest = []) (hInner : normalizer.Reads inner fields) : Opens normalizer candidate inner fields
  | string {value : Text} {fields : List (Text × Value)}
      (hReads : normalizer.Reads candidate [(text "json_string", .string value)])
      (hInner : normalizer.Reads (stripText value) fields) : Opens normalizer candidate (stripText value) fields

/-- The raw text is a reviewed wrapper of an object, and what it encloses. -/
inductive Unwraps (normalizer : Normalizer) (raw : Text) : Text → List (Text × Value) → Prop
  | envelope {candidate inner : Text} {kind : Normalization} {fields : List (Text × Value)}
      (hAnswer : normalizer.Answer raw candidate kind) (hOpens : normalizer.Opens candidate inner fields) :
      Unwraps normalizer raw inner fields
  | fence {candidate : Text} {fields : List (Text × Value)} (hAnswer : normalizer.Answer raw candidate .markdownUnwrapped)
      (hReads : normalizer.Reads candidate fields) (hClosed : ∀ inner others, ¬ normalizer.Opens candidate inner others) :
      Unwraps normalizer raw candidate fields

theorem object_some {raw : Text} {fields : List (Text × Value)} :
    normalizer.object raw = .ok (some fields) ↔ normalizer.Reads raw fields := by
  unfold object Reads
  split <;> simp_all

theorem object_none {raw : Text} (h : normalizer.object raw = .ok none) (fields : List (Text × Value)) :
    ¬ normalizer.Reads raw fields := by
  rw [← object_some, h]
  simp

theorem object_error {raw : Text} {refusal : Refusal} (h : normalizer.object raw = .error refusal) :
    normalizer.TooDeep raw := by
  unfold object at h
  unfold TooDeep
  split at h <;> simp_all

theorem object_of_tooDeep {raw : Text} (h : normalizer.TooDeep raw) : normalizer.object raw = .error .tooDeep := by
  rw [object, h]

theorem fence_unique {lower : Text → Text} {raw enclosed other : Text} (h : Fence lower (stripText raw) enclosed)
    (hOther : Fence lower (stripText raw) other) : enclosed = other := by
  have hLast := stripText_last raw
  have hOnly : ∀ {found}, Fence lower (stripText raw) found →
      Normalizer.fenced ⟨lower, 0, 0, Nat.zero_le _⟩ (stripText raw) = some found :=
    (@fenced_iff ⟨lower, 0, 0, Nat.zero_le _⟩ _ _ hLast).mpr
  exact Option.some.inj ((hOnly h).symm.trans (hOnly hOther))

/-- The candidate is the answer without its fence, unless the enclosed text is
too deep. -/
theorem candidate_ok {raw candidate : Text} {kind : Normalization} :
    normalizer.candidate raw = .ok (candidate, kind) ↔
      normalizer.Answer raw candidate kind ∧
        ∀ enclosed, Fence normalizer.lower (stripText raw) enclosed → ¬ normalizer.TooDeep enclosed := by
  have hLast := stripText_last raw
  rw [Normalizer.candidate]
  cases hFenced : normalizer.fenced (stripText raw) with
  | none =>
      have hNone : ∀ enclosed, ¬ Fence normalizer.lower (stripText raw) enclosed := by
        intro enclosed hFence
        rw [(fenced_iff hLast).mpr hFence] at hFenced
        cases hFenced
      constructor
      · rintro ⟨⟩
        exact ⟨.plain fun enclosed _ hFence => absurd hFence (hNone enclosed), fun enclosed hFence => absurd hFence (hNone enclosed)⟩
      · rintro ⟨hAnswer, -⟩
        cases hAnswer with
        | fenced hFence _ => exact absurd hFence (hNone _)
        | plain _ => rfl
  | some enclosed =>
      have hFence := (fenced_iff hLast).mp hFenced
      simp only [bind_ok]
      constructor
      · rintro ⟨found, hFound, hResult⟩
        have hShallow : ∀ other, Fence normalizer.lower (stripText raw) other → ¬ normalizer.TooDeep other := by
          intro other hOther hDeep
          rw [fence_unique hFence hOther, object_of_tooDeep hDeep] at hFound
          cases hFound
        cases found with
        | none =>
            cases hResult
            refine ⟨.plain fun other fields hOther => ?_, hShallow⟩
            rw [← fence_unique hFence hOther]
            exact object_none hFound fields
        | some fields =>
            cases hResult
            exact ⟨.fenced hFence (object_some.mp hFound), hShallow⟩
      · rintro ⟨hAnswer, hShallow⟩
        cases hObject : normalizer.object enclosed with
        | error refusal => exact absurd (object_error hObject) (hShallow enclosed hFence)
        | ok found =>
            refine ⟨found, rfl, ?_⟩
            cases hAnswer with
            | fenced hOther hReads =>
                rw [← fence_unique hFence hOther, ← object_some, hObject] at hReads
                cases hReads
                rw [fence_unique hFence hOther]
                rfl
            | plain hNone =>
                cases found with
                | none => rfl
                | some fields => exact absurd (object_some.mp hObject) (hNone enclosed fields hFence)

/-- Stripped texts start with what JSON starts with. -/
theorem skipSpace_stripText (raw : Text) : skipSpace (stripText raw) = stripText raw := by
  cases hStrip : stripText raw with
  | nil => rfl
  | cons c rest =>
      have hSuffix : (stripText raw).reverse <:+ (raw.dropWhile isSpaceCode).reverse := by
        rw [stripText, List.reverse_reverse]
        exact List.dropWhile_suffix _
      obtain ⟨after, hAfter⟩ := List.reverse_suffix.mp hSuffix
      have hFirst := List.head?_dropWhile_not isSpaceCode raw
      rw [← hAfter, hStrip] at hFirst
      have hPlain : isSpaceCode c = false := by simpa using hFirst
      apply skipSpace_cons
      refine ⟨?_, ?_, ?_, ?_⟩ <;> rintro rfl <;> exact absurd hPlain (by decide)

theorem stripText_part (raw : Text) : stripText raw <:+: raw := by
  have hSuffix : (stripText raw).reverse <:+ (raw.dropWhile isSpaceCode).reverse := by
    rw [stripText, List.reverse_reverse]
    exact List.dropWhile_suffix _
  exact (List.reverse_suffix.mp hSuffix).isInfix.trans (List.dropWhile_suffix _).isInfix

theorem Answer.stripped {raw candidate : Text} {kind : Normalization} (h : normalizer.Answer raw candidate kind) :
    skipSpace candidate = candidate ∧ candidate <:+: raw := by
  cases h with
  | fenced hFence _ =>
      obtain ⟨head, body, hRaw, _, _, rfl⟩ := hFence
      have hBody : body <:+: stripText raw := ⟨head ++ [10], text "\n```", by rw [hRaw]; simp⟩
      exact ⟨skipSpace_stripText body, (stripText_part body).trans (hBody.trans (stripText_part raw))⟩
  | plain _ => exact ⟨skipSpace_stripText raw, stripText_part raw⟩

theorem reads_single {raw key other : Text} {value found : Value} (h : normalizer.Reads raw [(key, value)])
    (hOther : normalizer.Reads raw [(other, found)]) : other = key ∧ found = value := by
  rw [Reads, h] at hOther
  cases hOther
  exact ⟨rfl, rfl⟩

theorem lookup_single (key other : Text) (value : Value) :
    [(key, value)].lookup other = if key = other then some value else none := by
  by_cases hSame : key = other
  · simp [hSame]
  · simp [hSame, List.lookup_cons, beq_eq_false_iff_ne.mpr (Ne.symm hSame)]

/-- An envelope with an object: the offsets never fail. -/
theorem unwrap_object {candidate key : Text} {fields : List (Text × Value)} (hStart : skipSpace candidate = candidate)
    (hKey : key = text "parameters" ∨ key = text "json") (hReads : normalizer.Reads candidate [(key, .object fields)]) :
    ∃ inner, normalizer.unwrap candidate [(key, .object fields)] ["parameters", "json", "json_string"] = .ok (some inner) ∧
      normalizer.Opens candidate inner fields := by
  obtain ⟨before, inner, after, rest, hInner, hCandidate, hClose, hRest, hLoads⟩ := innerObject_eq hStart hReads
  refine ⟨inner, ?_, .object hKey hReads hCandidate hClose hRest hLoads⟩
  have hDiffer : text "json" ≠ text "parameters" := by decide
  rcases hKey with rfl | rfl
  · simp [unwrap, hInner]
  · simp [unwrap, lookup_single, hDiffer, hInner]

/-- Without an object under its key an envelope is only asked for its string. -/
theorem unwrap_other {candidate key : Text} {value : Value}
    (hNone : ¬ ((key = text "parameters" ∨ key = text "json") ∧ ∃ fields, value = .object fields)) :
    normalizer.unwrap candidate [(key, value)] ["parameters", "json", "json_string"] =
      normalizer.unwrap candidate [(key, value)] ["json_string"] := by
  have hPlain : ∀ found : String, key = text found → found = "parameters" ∨ found = "json" → ∀ keys,
      normalizer.unwrap candidate [(key, value)] (found :: keys) = normalizer.unwrap candidate [(key, value)] keys := by
    rintro found rfl hFound keys
    have hString : found ≠ "json_string" := by
      rcases hFound with rfl | rfl <;> decide
    rw [unwrap, lookup_single, if_pos rfl]
    simp only [if_neg hString]
    cases value with
    | object fields => exact absurd ⟨by rcases hFound with rfl | rfl <;> simp, fields, rfl⟩ hNone
    | _ => rfl
  have hSkip : ∀ found : String, key ≠ text found → ∀ keys,
      normalizer.unwrap candidate [(key, value)] (found :: keys) = normalizer.unwrap candidate [(key, value)] keys := by
    intro found hFound keys
    rw [unwrap, lookup_single, if_neg hFound]
  have hEither : ∀ found : String, found = "parameters" ∨ found = "json" → ∀ keys,
      normalizer.unwrap candidate [(key, value)] (found :: keys) = normalizer.unwrap candidate [(key, value)] keys := by
    intro found hFound keys
    by_cases hKey : key = text found
    · exact hPlain found hKey hFound keys
    · exact hSkip found hKey keys
  rw [hEither "parameters" (.inl rfl), hEither "json" (.inr rfl)]

/-- Opening an envelope with one field: only a string that is too deep is not
read. -/
theorem unwrap_cases {candidate key : Text} {value : Value} (hStart : skipSpace candidate = candidate)
    (hReads : normalizer.Reads candidate [(key, value)]) :
    (∃ inner fields, normalizer.unwrap candidate [(key, value)] ["parameters", "json", "json_string"] = .ok (some inner) ∧
      normalizer.Opens candidate inner fields) ∨
    (normalizer.unwrap candidate [(key, value)] ["parameters", "json", "json_string"] = .ok none ∧
      ∀ inner fields, ¬ normalizer.Opens candidate inner fields) ∨
    ∃ spelled refusal, normalizer.Reads candidate [(text "json_string", .string spelled)] ∧
      normalizer.TooDeep (stripText spelled) ∧
      normalizer.unwrap candidate [(key, value)] ["parameters", "json", "json_string"] = .error refusal := by
  by_cases hObject : (key = text "parameters" ∨ key = text "json") ∧ ∃ fields, value = .object fields
  · obtain ⟨hKey, fields, rfl⟩ := hObject
    obtain ⟨inner, hUnwrap, hOpens⟩ := unwrap_object hStart hKey hReads
    exact .inl ⟨inner, fields, hUnwrap, hOpens⟩
  rw [unwrap_other hObject]
  by_cases hString : key = text "json_string" ∧ ∃ spelled, value = .string spelled
  · obtain ⟨rfl, spelled, rfl⟩ := hString
    rw [unwrap, lookup_single, if_pos rfl]
    simp only [if_true]
    cases hFound : normalizer.object (stripText spelled) with
    | error refusal => exact .inr (.inr ⟨spelled, refusal, hReads, object_error hFound, rfl⟩)
    | ok found =>
        cases found with
        | some fields => exact .inl ⟨stripText spelled, fields, rfl, .string hReads (object_some.mp hFound)⟩
        | none =>
            refine .inr (.inl ⟨rfl, fun inner fields hOpens => ?_⟩)
            cases hOpens with
            | object hKey hOther => exact absurd ⟨(reads_single hReads hOther).1 ▸ hKey, _, (reads_single hReads hOther).2.symm⟩ hObject
            | string hOther hInner =>
                obtain ⟨-, hSame⟩ := reads_single hReads hOther
                cases hSame
                exact object_none hFound fields hInner
  · refine .inr (.inl ⟨?_, fun inner fields hOpens => ?_⟩)
    · rw [unwrap, lookup_single]
      by_cases hKey : key = text "json_string"
      · rw [if_pos hKey]
        simp only [if_true]
        cases value with
        | string spelled => exact absurd ⟨hKey, spelled, rfl⟩ hString
        | _ => rfl
      · rw [if_neg hKey]
        rfl
    · cases hOpens with
      | object hKey hOther => exact absurd ⟨(reads_single hReads hOther).1 ▸ hKey, _, (reads_single hReads hOther).2.symm⟩ hObject
      | string hOther _ => exact absurd ⟨(reads_single hReads hOther).1.symm, _, (reads_single hReads hOther).2.symm⟩ hString

/-- The text that is validated, by what the raw text is. -/
structure Faithful (normalizer : Normalizer) (provider : String) (raw : Text) (out : NormalizedOutput) : Prop where
  kept : out.rawOutput = raw
  unchanged : (provider ≠ "deepseek" ∨ ∀ inner fields, ¬ normalizer.Unwraps raw inner fields) → out.validationOutput = raw
  unwrapped : provider = "deepseek" → (∃ inner fields, normalizer.Unwraps raw inner fields) →
    (∃ fields, normalizer.Unwraps raw out.validationOutput fields ∧ normalizer.Reads out.validationOutput fields) ∧
    (out.validationOutput <:+: raw ∨ ∃ candidate kind spelled, normalizer.Answer raw candidate kind ∧
      normalizer.Reads candidate [(text "json_string", .string spelled)] ∧ out.validationOutput = stripText spelled)

/-- Nothing that is read nests too deeply. -/
structure Shallow (normalizer : Normalizer) (raw : Text) : Prop where
  enclosed : ∀ enclosed, Fence normalizer.lower (stripText raw) enclosed → ¬ normalizer.TooDeep enclosed
  candidate : ∀ candidate kind, normalizer.Answer raw candidate kind → ¬ normalizer.TooDeep candidate
  spelled : ∀ candidate kind spelled, normalizer.Answer raw candidate kind →
    normalizer.Reads candidate [(text "json_string", .string spelled)] → ¬ normalizer.TooDeep (stripText spelled)

theorem Opens.reads {candidate inner : Text} {fields : List (Text × Value)} (h : normalizer.Opens candidate inner fields) :
    normalizer.Reads inner fields ∧ (∃ key value, normalizer.Reads candidate [(key, value)]) ∧
      (inner <:+: candidate ∨ ∃ spelled, normalizer.Reads candidate [(text "json_string", .string spelled)] ∧
        inner = stripText spelled) := by
  cases h with
  | object hKey hReads hCandidate hClose hEnd hInner =>
      exact ⟨hInner, ⟨_, _, hReads⟩, .inl ⟨_, _, by rw [hCandidate, List.append_assoc]⟩⟩
  | string hReads hInner => exact ⟨hInner, ⟨_, _, hReads⟩, .inr ⟨_, hReads, rfl⟩⟩

theorem answer_unique {raw candidate other : Text} {kind otherKind : Normalization}
    (h : normalizer.Answer raw candidate kind) (hOther : normalizer.Answer raw other otherKind) :
    candidate = other ∧ kind = otherKind := by
  cases h with
  | fenced hFence hReads =>
      cases hOther with
      | fenced hAgain _ => exact ⟨fence_unique hFence hAgain, rfl⟩
      | plain hNone => exact absurd hReads (hNone _ _ hFence)
  | plain hNone =>
      cases hOther with
      | fenced hFence hReads => exact absurd hReads (hNone _ _ hFence)
      | plain _ => exact ⟨rfl, rfl⟩

theorem answer_exists (normalizer : Normalizer) (raw : Text) : ∃ candidate kind, normalizer.Answer raw candidate kind := by
  by_cases h : ∃ enclosed fields, Fence normalizer.lower (stripText raw) enclosed ∧ normalizer.Reads enclosed fields
  · obtain ⟨enclosed, fields, hFence, hReads⟩ := h
    exact ⟨enclosed, .markdownUnwrapped, .fenced hFence hReads⟩
  · exact ⟨stripText raw, .unchanged, .plain fun enclosed fields hFence hReads => h ⟨enclosed, fields, hFence, hReads⟩⟩

/-- An envelope that is opened is what the raw text unwraps to. -/
theorem faithful_of_opens {raw candidate inner : Text} {kind : Normalization} {fields : List (Text × Value)}
    (hAnswer : normalizer.Answer raw candidate kind) (hOpens : normalizer.Opens candidate inner fields) :
    normalizer.Faithful "deepseek" raw ⟨raw, inner, .envelopeUnwrapped⟩ := by
  obtain ⟨hReads, -, hPart⟩ := hOpens.reads
  refine ⟨rfl, fun hNone => ?_, fun _ _ => ⟨⟨fields, .envelope hAnswer hOpens, hReads⟩, ?_⟩⟩
  · rcases hNone with hProvider | hNone
    · exact absurd rfl hProvider
    · exact absurd (.envelope hAnswer hOpens) (hNone inner fields)
  · rcases hPart with hInfix | ⟨spelled, hSpelled, rfl⟩
    · exact .inl (hInfix.trans hAnswer.stripped.2)
    · exact .inr ⟨candidate, kind, spelled, hAnswer, hSpelled, rfl⟩

/-- Without an envelope the candidate is validated, or the raw text if no fence
was taken off. -/
theorem faithful_of_closed {raw candidate : Text} {kind : Normalization} (hAnswer : normalizer.Answer raw candidate kind)
    (hClosed : ∀ inner fields, ¬ normalizer.Opens candidate inner fields) :
    normalizer.Faithful "deepseek" raw (if kind = .unchanged then ⟨raw, raw, .unchanged⟩ else ⟨raw, candidate, kind⟩) := by
  cases hAnswer with
  | fenced hFence hReads =>
      have hAnswer : normalizer.Answer raw candidate .markdownUnwrapped := .fenced hFence hReads
      have hUnwraps : normalizer.Unwraps raw candidate _ := .fence hAnswer hReads hClosed
      refine ⟨rfl, fun hNone => ?_, fun _ _ => ⟨⟨_, hUnwraps, hReads⟩, .inl hAnswer.stripped.2⟩⟩
      rcases hNone with hProvider | hNone
      · exact absurd rfl hProvider
      · exact absurd hUnwraps (hNone _ _)
  | plain hNone =>
      have hAnswer : normalizer.Answer raw (stripText raw) .unchanged := .plain hNone
      refine ⟨rfl, fun _ => rfl, fun _ hSome => ?_⟩
      obtain ⟨inner, fields, hUnwraps⟩ := hSome
      cases hUnwraps with
      | envelope hOther hOpens => exact absurd ((answer_unique hAnswer hOther).1 ▸ hOpens) (hClosed inner fields)
      | fence hOther _ _ => cases (answer_unique hAnswer hOther).2

theorem opened_cases {candidate : Text} {envelope : Option (List (Text × Value))} (hStart : skipSpace candidate = candidate)
    (hObject : normalizer.object candidate = .ok envelope) :
    (∃ inner fields, normalizer.opened candidate envelope = .ok (some inner) ∧ normalizer.Opens candidate inner fields) ∨
    (normalizer.opened candidate envelope = .ok none ∧ ∀ inner fields, ¬ normalizer.Opens candidate inner fields) ∨
    ∃ spelled refusal, normalizer.Reads candidate [(text "json_string", .string spelled)] ∧
      normalizer.TooDeep (stripText spelled) ∧ normalizer.opened candidate envelope = .error refusal := by
  have hClosed : (∀ field, envelope ≠ some [field]) → ∀ inner fields, ¬ normalizer.Opens candidate inner fields := by
    intro hMany inner fields hOpens
    obtain ⟨-, ⟨key, value, hReads⟩, -⟩ := hOpens.reads
    rw [← object_some, hObject] at hReads
    exact hMany _ (Except.ok.inj hReads)
  match envelope with
  | none => exact .inr (.inl ⟨rfl, hClosed fun field => by simp⟩)
  | some [] => exact .inr (.inl ⟨rfl, hClosed fun field => by simp⟩)
  | some (first :: second :: rest) => exact .inr (.inl ⟨rfl, hClosed fun field => by simp⟩)
  | some [(key, value)] => exact unwrap_cases hStart (object_some.mp hObject)

theorem normalizeOutput_ok {raw : Text} (h : normalizer.Shallow raw) :
    ∃ out, normalizer.normalizeOutput "deepseek" raw = .ok out ∧ normalizer.Faithful "deepseek" raw out := by
  obtain ⟨candidate, kind, hAnswer⟩ := normalizer.answer_exists raw
  have hCandidate := candidate_ok.mpr ⟨hAnswer, h.enclosed⟩
  rw [normalizeOutput, if_neg (not_not.mpr rfl), hCandidate]
  cases hObject : normalizer.object candidate with
  | error refusal => exact absurd (object_error hObject) (h.candidate candidate kind hAnswer)
  | ok envelope =>
      rcases opened_cases hAnswer.stripped.1 hObject with ⟨inner, fields, hOpened, hOpens⟩ | ⟨hOpened, hClosed⟩ |
        ⟨spelled, refusal, hSpelled, hDeep, hOpened⟩
      · refine ⟨_, ?_, faithful_of_opens hAnswer hOpens⟩
        simp only [bind_ok]
        exact ⟨_, rfl, _, hObject, _, hOpened, rfl⟩
      · refine ⟨_, ?_, faithful_of_closed hAnswer hClosed⟩
        simp only [bind_ok]
        exact ⟨_, rfl, _, hObject, _, hOpened, rfl⟩
      · exact absurd hDeep (h.spelled candidate kind spelled hAnswer hSpelled)

theorem shallow_of_ok {raw : Text} {out : NormalizedOutput} (h : normalizer.normalizeOutput "deepseek" raw = .ok out) :
    normalizer.Shallow raw := by
  rw [normalizeOutput, if_neg (not_not.mpr rfl), bind_ok] at h
  obtain ⟨⟨candidate, kind⟩, hCandidate, h⟩ := h
  obtain ⟨hAnswer, hEnclosed⟩ := candidate_ok.mp hCandidate
  simp only [bind_ok] at h
  obtain ⟨envelope, hObject, inner, hOpened, -⟩ := h
  refine ⟨hEnclosed, fun other otherKind hOther => ?_, fun other otherKind spelled hOther hSpelled hDeep => ?_⟩
  · rw [← (answer_unique hAnswer hOther).1]
    intro hDeep
    rw [object_of_tooDeep hDeep] at hObject
    cases hObject
  · rw [← (answer_unique hAnswer hOther).1, ← object_some, hObject] at hSpelled
    cases hSpelled
    simp only [opened, unwrap, lookup_single, if_neg (show text "json_string" ≠ text "parameters" by decide),
      if_neg (show text "json_string" ≠ text "json" by decide), if_true, object_of_tooDeep hDeep] at hOpened
    cases hOpened

end Normalizer

open Normalizer in
/-- Normalisation succeeds, and only unwraps, exactly when nothing that it reads
nests too deeply. -/
theorem normalize_only_unwraps (normalizer : Normalizer) (provider : String) (raw : Text) :
    (∃ out, normalizer.normalizeOutput provider raw = .ok out ∧ normalizer.Faithful provider raw out) ↔
      (provider = "deepseek" → normalizer.Shallow raw) := by
  by_cases hProvider : provider = "deepseek"
  · subst hProvider
    exact ⟨fun ⟨_, hOut, _⟩ _ => shallow_of_ok hOut, fun h => normalizeOutput_ok (h rfl)⟩
  · refine ⟨fun _ hSame => absurd hSame hProvider, fun _ => ⟨⟨raw, raw, .unchanged⟩, ?_, ?_⟩⟩
    · rw [normalizeOutput, if_pos hProvider]
      rfl
    · exact ⟨rfl, fun _ => rfl, fun hSame => absurd hSame hProvider⟩

/-! Brackets without end. -/

theorem scan_brackets {hook : List (Text × Value) → Except Refusal Value} (depth : Nat) : ∀ {fuel : Nat}, 2 * depth + 1 ≤ fuel →
    scanValue hook fuel (some depth) (List.replicate (depth + 1) 91) = .error .tooDeep := by
  induction depth with
  | zero =>
      intro fuel hFuel
      obtain ⟨fuel, rfl⟩ : ∃ less, fuel = less + 1 := ⟨fuel - 1, by omega⟩
      rw [List.replicate_succ, scanValue, if_neg (by decide), if_neg (by decide), if_pos rfl]
      rfl
  | succ depth ih =>
      intro fuel hFuel
      obtain ⟨fuel, rfl⟩ : ∃ less, fuel = less + 2 := ⟨fuel - 2, by omega⟩
      have hRest : skipSpace (List.replicate (depth + 1) 91) = List.replicate (depth + 1) 91 := by
        rw [List.replicate_succ]
        exact skipSpace_cons (by decide) _
      have hFirst : (List.replicate (depth + 1) 91).head? ≠ some 93 := by
        rw [List.replicate_succ, List.head?_cons]
        decide
      rw [List.replicate_succ, scanValue, if_neg (by decide), if_neg (by decide), if_pos rfl]
      simp only [deeper, hRest, hFirst, if_false]
      rw [scanItems, ih (by omega)]
      rfl

theorem brackets_tooDeep {hook : List (Text × Value) → Except Refusal Value} (depth : Nat) :
    loads hook (some depth) (List.replicate (depth + 1) 91) = .error .tooDeep := by
  have hRest : skipSpace (List.replicate (depth + 1) 91) = List.replicate (depth + 1) 91 := by
    rw [List.replicate_succ]
    exact skipSpace_cons (by decide) _
  have hMark : ¬ (List.replicate (depth + 1) 91).head? = some 0xFEFF := by
    rw [List.replicate_succ, List.head?_cons]
    decide
  rw [loads, if_neg hMark, decode, hRest, scan_brackets depth (by simp only [List.length_replicate]; omega)]
  rfl

theorem stripText_brackets (count : Nat) : stripText (List.replicate count 91) = List.replicate count 91 := by
  have hPlain : ∀ count, (List.replicate count 91).dropWhile isSpaceCode = List.replicate count 91 := by
    intro count
    cases count with
    | zero => rfl
    | succ count =>
        rw [List.replicate_succ, List.dropWhile_cons, if_neg (by decide)]
  rw [stripText, hPlain, List.reverse_replicate, hPlain, List.reverse_replicate]

/-- A text of nested brackets is never caught: the answer is not kept. -/
theorem brackets_not_normalized (normalizer : Normalizer) :
    ¬ normalizer.Shallow (List.replicate (normalizer.depth + 1) 91) := by
  intro h
  have hPlain : normalizer.Answer (List.replicate (normalizer.depth + 1) 91)
      (stripText (List.replicate (normalizer.depth + 1) 91)) .unchanged := by
    refine .plain fun enclosed fields hFence => ?_
    obtain ⟨head, body, hText, -⟩ := hFence
    rw [stripText_brackets] at hText
    have hLine : 10 ∈ List.replicate (normalizer.depth + 1) 91 := by
      rw [hText]
      exact List.mem_append_right _ List.mem_cons_self
    exact absurd (List.eq_of_mem_replicate hLine) (by decide)
  have hDeep := h.candidate _ _ hPlain
  rw [stripText_brackets] at hDeep
  exact hDeep (brackets_tooDeep normalizer.depth)

/-- An interpreter that reads a thousand levels. -/
def thousandLevels : Normalizer := ⟨id, 1000, 1000, by decide⟩

theorem deep_answer_not_kept : ¬ ∀ (normalizer : Normalizer) (provider : String) (raw : Text),
    ∃ out, normalizer.normalizeOutput provider raw = .ok out ∧ normalizer.Faithful provider raw out := by
  intro h
  obtain ⟨_, hOut, _⟩ := h thousandLevels "deepseek" (List.replicate 1001 91)
  exact brackets_not_normalized thousandLevels (Normalizer.shallow_of_ok hOut)

end QsAi
