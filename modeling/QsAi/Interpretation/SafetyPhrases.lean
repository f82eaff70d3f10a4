import QsAi.Interpretation.Safety

/-! Phrases in a written document. The document is normalised after it was
written, so blanks that the writer escapes are no blanks any more: they separate a
phrase, and the last letter of an escape may begin one. -/
namespace QsAi

open Guarded PyJson

namespace OutputSafety

/-! Infixes. -/

theorem prefix_separator {p left right : Text} {separator : Nat} (h : separator ∉ p) :
    p <+: left ++ separator :: right ↔ p <+: left := by
  constructor
  · intro hPrefix
    induction left generalizing p with
    | nil =>
        cases p with
        | nil => exact List.nil_prefix
        | cons first p =>
            rw [List.nil_append, List.cons_prefix_cons] at hPrefix
            exact absurd (hPrefix.1 ▸ List.mem_cons_self) h
    | cons c left ih =>
        cases p with
        | nil => exact List.nil_prefix
        | cons first p =>
            rw [List.cons_append, List.cons_prefix_cons] at hPrefix
            exact List.cons_prefix_cons.mpr ⟨hPrefix.1, ih (fun hMem => h (List.mem_cons_of_mem _ hMem)) hPrefix.2⟩
  · exact fun hPrefix => hPrefix.trans (List.prefix_append _ _)

/-- A separator that does not occur in a word is not crossed by it. -/
theorem infix_separator {p left right : Text} {separator : Nat} (h : separator ∉ p) (hSome : p ≠ []) :
    p <:+: left ++ separator :: right ↔ p <:+: left ∨ p <:+: right := by
  induction left with
  | nil =>
      rw [List.nil_append, List.infix_cons_iff, List.infix_nil, or_iff_right hSome]
      refine or_iff_right fun hPrefix => ?_
      have hNil : p <+: [] := (prefix_separator h).mp (show p <+: [] ++ separator :: right from hPrefix)
      exact hSome (List.prefix_nil.mp hNil)
  | cons c left ih =>
      rw [List.cons_append, List.infix_cons_iff, List.infix_cons_iff, ih, ← List.cons_append, prefix_separator h, or_assoc]

theorem infix_after {p right : Text} {separator : Nat} (h : separator ∉ p) (hSome : p ≠ []) :
    p <:+: separator :: right ↔ p <:+: right := by
  have hSplit : p <:+: [] ++ separator :: right ↔ p <:+: [] ∨ p <:+: right := infix_separator h hSome
  rw [List.nil_append, List.infix_nil, or_iff_right hSome] at hSplit
  exact hSplit

/-! Normal texts. -/

/-- A small letter for a capital one. -/
def asciiLower (c : Nat) : Nat := if 65 ≤ c ∧ c ≤ 90 then c + 32 else c

/-- The text without blanks and capital letters. -/
def skeleton (value : Text) : Text := (value.filter fun c => !isDropped c).map asciiLower

theorem asciiLower_dropped (c : Nat) : isDropped (asciiLower c) = isDropped c := by
  unfold asciiLower
  split
  · have hAll : ∀ c < 91, 65 ≤ c → isDropped (c + 32) = isDropped c := by decide
    rename_i hCapital
    exact hAll c (by omega) hCapital.1
  · rfl

variable (library : Lowering)

theorem lower_asciiLower (c : Nat) : library.lower (asciiLower c) = library.lower c := by
  unfold asciiLower
  split
  · rename_i hCapital
    rw [library.ascii (c + 32) (by omega), library.ascii c (by omega), if_neg (by omega), if_pos hCapital]
  · rfl

theorem normalize_skeleton (value : Text) : normalize library value = (skeleton value).map library.lower := by
  rw [normalize, skeleton, List.map_map]
  exact List.map_congr_left fun c _ => (lower_asciiLower library c).symm

theorem skeleton_skeleton (value : Text) : skeleton (skeleton value) = skeleton value := by
  have hKept : (skeleton value).filter (fun c => !isDropped c) = skeleton value := by
    rw [List.filter_eq_self]
    intro c hMem
    obtain ⟨source, hSource, rfl⟩ := List.mem_map.mp hMem
    rw [asciiLower_dropped]
    exact (List.mem_filter.mp hSource).2
  have hTwice : ∀ c, asciiLower (asciiLower c) = asciiLower c := by
    intro c
    unfold asciiLower
    split
    · rw [if_neg (by omega)]
    · rfl
  conv_lhs => rw [skeleton, hKept, skeleton, List.map_map]
  rw [skeleton]
  exact List.map_congr_left fun c _ => hTwice c

/-- Texts that differ in blanks and case only are normalised to the same text. -/
theorem normalize_congr {a b : Text} (h : skeleton a = skeleton b) : normalize library a = normalize library b := by
  rw [normalize_skeleton, normalize_skeleton, h]

@[simp] theorem normalize_nil : normalize library [] = [] := rfl

@[simp] theorem normalize_append (a b : Text) : normalize library (a ++ b) = normalize library a ++ normalize library b := by
  simp [normalize]

theorem normalize_kept {c : Nat} (h : isDropped c = false) (value : Text) :
    normalize library (c :: value) = library.lower c :: normalize library value := by
  simp [normalize, h]

theorem normalize_dropped {c : Nat} (h : isDropped c = true) (value : Text) :
    normalize library (c :: value) = normalize library value := by
  simp [normalize, h]

/-- A character that is kept as it is. -/
def Fixed (c : Nat) : Bool := !isDropped c && (c < 65 || (90 < c && c < 128))

theorem lower_fixed {c : Nat} (h : Fixed c = true) : library.lower c = c := by
  simp only [Fixed, Bool.and_eq_true, Bool.or_eq_true, decide_eq_true_eq] at h
  rw [library.ascii c (by omega), if_neg (by omega)]

theorem normalize_fixed {c : Nat} (h : Fixed c = true) (value : Text) :
    normalize library (c :: value) = c :: normalize library value := by
  have hKept : isDropped c = false := by
    simp only [Fixed, Bool.and_eq_true, Bool.not_eq_true'] at h
    exact h.1
  rw [normalize_kept library hKept, lower_fixed library h]

theorem normalize_allFixed {value : Text} (h : value.all Fixed = true) : normalize library value = value := by
  induction value with
  | nil => rfl
  | cons c value ih =>
      rw [List.all_cons, Bool.and_eq_true] at h
      rw [normalize_fixed library h.1, ih h.2]

/-! Phrases. -/

/-- A small letter, or a character beyond ASCII. -/
def isPhraseCode (c : Nat) : Bool := (97 ≤ c && c ≤ 122) || 128 ≤ c

/-- What a forbidden phrase is like once it is normalised. -/
structure Sayable (p : Text) : Prop where
  letters : ∀ c ∈ p, isPhraseCode c = true
  length : 2 ≤ p.length
  first : p.head? ≠ some 110
  notNumber : ∃ c ∈ p, numberCode c = false
  notWord : ∀ word ∈ ["null", "true", "false", "infinity", "-infinity"], ¬ p <:+: text word

theorem normalize_plain {value : Text} (h : ∀ c ∈ value, c < 128 ∨ (0x4E00 ≤ c ∧ c ≤ 0x9FFF)) :
    normalize library value = skeleton value := by
  rw [normalize, skeleton]
  apply List.map_congr_left
  intro c hMem
  rcases h c (List.mem_of_mem_filter hMem) with hAscii | ⟨hLow, hHigh⟩
  · exact library.ascii c hAscii
  · rw [library.ideograph c hLow hHigh, asciiLower, if_neg (by omega)]

/-- Every phrase is written in ASCII or in ideographs. -/
theorem phrases_plain : ∀ rule ∈ rules, ∀ phrase ∈ rule.2, ∀ c ∈ text phrase, c < 128 ∨ (0x4E00 ≤ c ∧ c ≤ 0x9FFF) := by
  decide +kernel

theorem phrases_form : ∀ rule ∈ rules, ∀ phrase ∈ rule.2, (∀ c ∈ skeleton (text phrase), isPhraseCode c = true) ∧
    2 ≤ (skeleton (text phrase)).length ∧ (skeleton (text phrase)).head? ≠ some 110 ∧
    (∃ c ∈ skeleton (text phrase), numberCode c = false) ∧
    ∀ word ∈ ["null", "true", "false", "infinity", "-infinity"], ¬ skeleton (text phrase) <:+: text word := by
  decide +kernel

theorem sayable {rule : String × List String} (hRule : rule ∈ rules) {phrase : String} (hPhrase : phrase ∈ rule.2) :
    Sayable (normalize library (text phrase)) := by
  rw [normalize_plain library (phrases_plain rule hRule phrase hPhrase)]
  obtain ⟨hLetters, hLength, hFirst, hNumber, hWord⟩ := phrases_form rule hRule phrase hPhrase
  exact ⟨hLetters, hLength, hFirst, hNumber, hWord⟩

theorem Sayable.ne_nil {p : Text} (h : Sayable p) : p ≠ [] := by
  rintro rfl
  exact absurd h.length (by decide)

/-- What is no letter is in no phrase. -/
theorem Sayable.not_mem {p : Text} (h : Sayable p) {c : Nat} (hOther : isPhraseCode c = false) : c ∉ p := by
  intro hMem
  rw [h.letters c hMem] at hOther
  cases hOther

/-! Escapes. -/

/-- The letter that the escape of a character ends in. -/
def escapeEnd (c : Nat) : Option Nat :=
  if c = 8 then some 98
  else if c = 9 then some 116
  else if c = 10 then some 110
  else if c = 12 then some 102
  else if c = 13 then some 114
  else if c < 32 ∧ 10 ≤ c % 16 then some (TextEncoding.hexCode (c % 16))
  else none

/-- How a character is written and normalised: alone, as a blank that is dropped,
or as an escape. -/
inductive Written (c : Nat) : Prop
  | kept (hEscape : escapeCode c = [c]) (hKept : isDropped c = false) (hEnd : escapeEnd c = none) (hOther : c ≠ 92)
  | blank (hEscape : escapeCode c = [c]) (hDropped : isDropped c = true) (hEnd : escapeEnd c = none)
  | escaped (more : Text) (hEscape : escapeCode c = 92 :: more) (hFixed : more.all Fixed = true) (hSmall : c < 128)
      (hLower : isDropped c = false → Fixed c = true)
      (hParts : ∀ p rest, Sayable p → (p <:+: more ++ rest ↔ (∃ first later, p = first :: later ∧ escapeEnd c = some first ∧
        later <+: rest) ∨ p <:+: rest))

/-- A phrase cannot begin with a character that is no letter. -/
theorem infix_fixed {p rest : Text} (h : Sayable p) {c : Nat} (hOther : isPhraseCode c = false) :
    p <:+: c :: rest ↔ p <:+: rest := infix_after (h.not_mem hOther) h.ne_nil

theorem infix_letter {p rest : Text} (h : Sayable p) (c : Nat) :
    p <:+: c :: rest ↔ (∃ first later, p = first :: later ∧ some c = some first ∧ later <+: rest) ∨ p <:+: rest := by
  rw [List.infix_cons_iff]
  refine or_congr_left ⟨fun hPrefix => ?_, ?_⟩
  · obtain ⟨first, later, rfl⟩ := List.exists_cons_of_ne_nil h.ne_nil
    rw [List.cons_prefix_cons] at hPrefix
    exact ⟨first, later, rfl, by rw [hPrefix.1], hPrefix.2⟩
  · rintro ⟨first, later, rfl, hSame, hLater⟩
    rw [List.cons_prefix_cons]
    exact ⟨(Option.some.inj hSame).symm, hLater⟩

/-- An escape with four digits ends in its last digit only. -/
theorem infix_unicode {p rest : Text} (h : Sayable p) {high low : Nat} (hHigh : isPhraseCode high = false) :
    p <:+: [117, 48, 48, high, low] ++ rest ↔ p <:+: low :: rest := by
  have hDigits : p <:+: 48 :: 48 :: high :: low :: rest ↔ p <:+: low :: rest := by
    rw [infix_fixed h rfl, infix_fixed h rfl, infix_fixed h hHigh]
  show p <:+: 117 :: 48 :: 48 :: high :: low :: rest ↔ _
  rw [infix_letter h, hDigits]
  refine or_iff_right ?_
  rintro ⟨first, later, rfl, -, hLater⟩
  -- A phrase of two characters and more would go on with a digit.
  obtain ⟨second, later, rfl⟩ : ∃ second more, later = second :: more := by
    refine List.exists_cons_of_ne_nil ?_
    rintro rfl
    exact absurd h.length (by simp)
  rw [List.cons_prefix_cons] at hLater
  exact h.not_mem (show isPhraseCode 48 = false from rfl) (hLater.1 ▸ List.mem_cons_of_mem _ List.mem_cons_self)

theorem written (c : Nat) : Written c := by
  by_cases hQuote : c = 34 ∨ c = 92
  · have hEscape : escapeCode c = 92 :: [c] := by rw [escapeCode, if_pos hQuote]
    have hEnd : escapeEnd c = none := by rcases hQuote with rfl | rfl <;> rfl
    refine .escaped [c] hEscape ?_ (by omega) (fun _ => ?_) fun p rest h => ?_
    · rcases hQuote with rfl | rfl <;> rfl
    · rcases hQuote with rfl | rfl <;> rfl
    · have hOther : isPhraseCode c = false := by rcases hQuote with rfl | rfl <;> rfl
      rw [List.cons_append, List.nil_append, infix_fixed h hOther, hEnd]
      exact (or_iff_right (by rintro ⟨first, later, -, hNone, -⟩; cases hNone)).symm
  by_cases hShort : c = 8 ∨ c = 9 ∨ c = 10 ∨ c = 12 ∨ c = 13
  · obtain ⟨letter, hEscape, hEnd, hFixed⟩ : ∃ letter, escapeCode c = [92, letter] ∧ escapeEnd c = some letter ∧
        Fixed letter = true := by
      rcases hShort with rfl | rfl | rfl | rfl | rfl <;> exact ⟨_, rfl, rfl, rfl⟩
    refine .escaped [letter] hEscape (by simpa using hFixed) (by omega) (fun hKept => ?_) fun p rest h => ?_
    · rcases hShort with rfl | rfl | rfl | rfl | rfl <;> first | rfl | cases hKept
    · rw [hEnd]
      exact infix_letter h letter
  by_cases hSmall : c < 32
  · have hEscape : escapeCode c = 92 :: [117, 48, 48, TextEncoding.hexCode (c / 16), TextEncoding.hexCode (c % 16)] := by
      rw [escapeCode, if_neg hQuote, if_neg (by omega), if_neg (by omega), if_neg (by omega), if_neg (by omega),
        if_neg (by omega), if_pos hSmall]
    have hAll : ∀ c < 32, [117, 48, 48, TextEncoding.hexCode (c / 16), TextEncoding.hexCode (c % 16)].all Fixed = true ∧
        (isDropped c = false → Fixed c = true) ∧ isPhraseCode (TextEncoding.hexCode (c / 16)) = false ∧
        (10 ≤ c % 16 ∨ isPhraseCode (TextEncoding.hexCode (c % 16)) = false) := by decide
    obtain ⟨hFixed, hLower, hHigh, hLow⟩ := hAll c hSmall
    refine .escaped _ hEscape hFixed (by omega) hLower fun p rest h => ?_
    rw [infix_unicode h hHigh]
    by_cases hDigit : 10 ≤ c % 16
    · have hEnd : escapeEnd c = some (TextEncoding.hexCode (c % 16)) := by
        rw [escapeEnd, if_neg (by omega), if_neg (by omega), if_neg (by omega), if_neg (by omega), if_neg (by omega),
          if_pos ⟨hSmall, hDigit⟩]
      rw [hEnd]
      exact infix_letter h _
    · have hEnd : escapeEnd c = none := by
        rw [escapeEnd, if_neg (by omega), if_neg (by omega), if_neg (by omega), if_neg (by omega), if_neg (by omega),
          if_neg (by omega)]
      rw [infix_fixed h (hLow.resolve_left hDigit), hEnd]
      exact (or_iff_right (by rintro ⟨first, later, -, hNone, -⟩; cases hNone)).symm
  · have hEscape : escapeCode c = [c] := by
      rw [escapeCode, if_neg hQuote, if_neg (by omega), if_neg (by omega), if_neg (by omega), if_neg (by omega),
        if_neg (by omega), if_neg hSmall]
    have hEnd : escapeEnd c = none := by
      rw [escapeEnd, if_neg (by omega), if_neg (by omega), if_neg (by omega), if_neg (by omega), if_neg (by omega),
        if_neg (by omega)]
    by_cases hDropped : isDropped c = true
    · exact .blank hEscape hDropped hEnd
    · exact .kept hEscape (Bool.not_eq_true _ ▸ hDropped) hEnd (by omega)

/-! Phrases in an escaped string. -/

theorem normalize_escaped {c : Nat} {more : Text} (hEscape : escapeCode c = 92 :: more) (hFixed : more.all Fixed = true) :
    normalize library (escapeCode c) = 92 :: more := by
  rw [hEscape, normalize_fixed library rfl, normalize_allFixed library hFixed]

/-- The beginning of a phrase in an escaped string is in the string. -/
theorem prefix_escapeText {q value : Text} (h : ∀ c ∈ q, isPhraseCode c = true)
    (hPrefix : q <+: normalize library (escapeText value)) : q <+: normalize library value := by
  induction value generalizing q with
  | nil => exact hPrefix
  | cons c value ih =>
      rw [escapeText_cons, normalize_append] at hPrefix
      cases q with
      | nil => exact List.nil_prefix
      | cons first q =>
          obtain ⟨hFirst, hRest⟩ := List.forall_mem_cons.mp h
          cases written c with
          | kept hEscape hKept hEnd hOther =>
              rw [hEscape, normalize_kept library hKept, normalize_nil, List.cons_append, List.cons_prefix_cons] at hPrefix
              rw [normalize_kept library hKept, List.cons_prefix_cons]
              exact ⟨hPrefix.1, ih hRest hPrefix.2⟩
          | blank hEscape hDropped hEnd =>
              rw [hEscape, normalize_dropped library hDropped, normalize_nil, List.nil_append] at hPrefix
              rw [normalize_dropped library hDropped]
              exact ih h hPrefix
          | escaped more hEscape hFixed hSmall hLower hParts =>
              rw [normalize_escaped library hEscape hFixed, List.cons_append, List.cons_prefix_cons] at hPrefix
              rw [hPrefix.1] at hFirst
              cases hFirst

/-- Some spelling of the string with other blanks has the phrase in its escaped
text: the phrase is in the string, or all but its first letter is, behind a blank
or another control character whose escape ends in that letter. -/
def Reaches (p value : Text) : Prop :=
  p <:+: normalize library value ∨ ∃ first later, p = first :: later ∧
    (((∃ c, isDropped c = true ∧ escapeEnd c = some first) ∧ later <:+: normalize library value) ∨
      ∃ c, isDropped c = false ∧ escapeEnd c = some first ∧ c :: later <:+: normalize library value)

theorem Reaches.cons {p value : Text} {c : Nat} (h : Reaches library p value) : Reaches library p (c :: value) := by
  have hMore : normalize library value <:+: normalize library (c :: value) := by
    by_cases hDropped : isDropped c = true
    · rw [normalize_dropped library hDropped]
    · rw [normalize_kept library (by simpa using hDropped)]
      exact List.suffix_cons _ _ |>.isInfix
  rcases h with hDirect | ⟨first, later, rfl, ⟨hBlank, hLater⟩ | ⟨c, hKept, hEnd, hLater⟩⟩
  · exact .inl (hDirect.trans hMore)
  · exact .inr ⟨first, later, rfl, .inl ⟨hBlank, hLater.trans hMore⟩⟩
  · exact .inr ⟨first, later, rfl, .inr ⟨c, hKept, hEnd, hLater.trans hMore⟩⟩

/-- A phrase in an escaped string is reached by the string. -/
theorem reaches_of_verdict {p value : Text} (h : Sayable p) (hSays : p <:+: normalize library (escapeText value)) :
    Reaches library p value := by
  induction value with
  | nil => exact absurd (List.infix_nil.mp hSays) h.ne_nil
  | cons c value ih =>
      rw [escapeText_cons, normalize_append] at hSays
      cases written c with
      | kept hEscape hKept hEnd hOther =>
          rw [hEscape, normalize_kept library hKept, normalize_nil, List.cons_append, List.nil_append, infix_letter h] at hSays
          rcases hSays with ⟨first, later, rfl, hFirst, hLater⟩ | hRest
          · have hPrefix := prefix_escapeText library (fun d hd => h.letters d (List.mem_cons_of_mem _ hd)) hLater
            refine .inl (List.IsPrefix.isInfix ?_)
            rw [normalize_kept library hKept, List.cons_prefix_cons]
            exact ⟨(Option.some.inj hFirst).symm, hPrefix⟩
          · exact (ih hRest).cons library
      | blank hEscape hDropped hEnd =>
          rw [hEscape, normalize_dropped library hDropped, normalize_nil, List.nil_append] at hSays
          exact (ih hSays).cons library
      | escaped more hEscape hFixed hSmall hLower hParts =>
          rw [normalize_escaped library hEscape hFixed, List.cons_append, infix_fixed h rfl, hParts p _ h] at hSays
          rcases hSays with ⟨first, later, rfl, hEnd, hLater⟩ | hRest
          · have hPrefix := prefix_escapeText library (fun d hd => h.letters d (List.mem_cons_of_mem _ hd)) hLater
            refine .inr ⟨first, later, rfl, ?_⟩
            by_cases hDropped : isDropped c = true
            · refine .inl ⟨⟨c, hDropped, hEnd⟩, ?_⟩
              rw [normalize_dropped library hDropped]
              exact hPrefix.isInfix
            · have hKept : isDropped c = false := by simpa using hDropped
              refine .inr ⟨c, hKept, hEnd, List.IsPrefix.isInfix ?_⟩
              rw [normalize_fixed library (hLower hKept), List.cons_prefix_cons]
              exact ⟨rfl, hPrefix⟩
          · exact (ih hRest).cons library

/-- A phrase of the string stays in the escaped text when the blanks are gone. -/
theorem escapeText_of_phrase {q value : Text} (h : ∀ c ∈ q, isPhraseCode c = true) (hKept : ∀ c ∈ value, isDropped c = false)
    (hValue : value.map library.lower = q) : normalize library (escapeText value) = q := by
  induction value generalizing q with
  | nil => rw [← hValue]; rfl
  | cons c value ih =>
      obtain ⟨hFirst, hRest⟩ := List.forall_mem_cons.mp hKept
      subst hValue
      obtain ⟨hLetter, hLetters⟩ := List.forall_mem_cons.mp h
      cases written c with
      | kept hEscape _ hEnd hOther =>
          rw [escapeText_cons, normalize_append, hEscape, normalize_kept library hFirst, normalize_nil, ih hLetters hRest rfl]
          rfl
      | blank hEscape hDropped hEnd =>
          rw [hFirst] at hDropped
          cases hDropped
      | escaped more hEscape hFixed hSmall hLower hParts =>
          -- An escaped character is not made a letter by the normalisation.
          rw [lower_fixed library (hLower hFirst)] at hLetter
          have hNone : ∀ c < 128, (escapeCode c).head? = some 92 → isPhraseCode c = false := by decide
          rw [hNone c hSmall (by rw [hEscape]; rfl)] at hLetter
          cases hLetter

theorem skeleton_append (a b : Text) : skeleton (a ++ b) = skeleton a ++ skeleton b := by
  simp [skeleton]

theorem skeleton_filter (value : Text) : skeleton (value.filter fun c => !isDropped c) = skeleton value := by
  simp [skeleton, List.filter_filter]

theorem skeleton_blank {c : Nat} (h : isDropped c = true) : skeleton [c] = [] := by
  simp [skeleton, h]

/-- A control character that is kept is the only one that is normalised to itself. -/
theorem lower_control {c d : Nat} (h : library.lower d = c) (hEnd : escapeEnd c ≠ none) : d = c := by
  have hSmall : c < 32 := by
    by_contra hLarge
    refine hEnd ?_
    rw [escapeEnd, if_neg (by omega), if_neg (by omega), if_neg (by omega), if_neg (by omega), if_neg (by omega),
      if_neg (by omega)]
  by_cases hAscii : d < 128
  · rw [library.ascii d hAscii] at h
    split at h <;> omega
  · have hBeyond := library.beyond d (by omega) (by omega)
    omega

/-- A string that reaches a phrase says it with other blanks. -/
theorem says_of_reaches {p value : Text} (h : Sayable p) (hReaches : Reaches library p value) :
    ∃ other, skeleton other = skeleton value ∧ p <:+: normalize library (escapeText other) := by
  -- The kept characters of the string, around those that a part of the phrase comes from.
  have hParts : ∀ q : Text, q <:+: normalize library value → ∃ front middle back,
      value.filter (fun c => !isDropped c) = front ++ (middle ++ back) ∧ middle.map library.lower = q := by
    rintro q ⟨front, back, hText⟩
    rw [normalize, List.append_assoc] at hText
    obtain ⟨first, rest, hSplit, -, hRest⟩ := List.map_eq_append_iff.mp hText.symm
    obtain ⟨middle, last, hMore, hMiddle, -⟩ := List.map_eq_append_iff.mp hRest
    exact ⟨first, middle, last, by rw [hSplit, hMore], hMiddle⟩
  have hKeptAll : ∀ {front middle back : Text}, value.filter (fun c => !isDropped c) = front ++ (middle ++ back) →
      ∀ c ∈ middle, isDropped c = false := by
    intro front middle back hSplit c hMem
    have hIn : c ∈ value.filter (fun c => !isDropped c) := by
      rw [hSplit]
      exact List.mem_append_right _ (List.mem_append_left _ hMem)
    simpa using (List.mem_filter.mp hIn).2
  rcases hReaches with hDirect | ⟨first, later, rfl, ⟨⟨c, hDropped, hEnd⟩, hLater⟩ | ⟨c, hKept, hEnd, hLater⟩⟩
  · obtain ⟨front, middle, back, hSplit, hMiddle⟩ := hParts p hDirect
    refine ⟨front ++ (middle ++ back), by rw [← hSplit, skeleton_filter], ?_⟩
    rw [escapeText_append, escapeText_append, normalize_append, normalize_append,
      escapeText_of_phrase library h.letters (hKeptAll hSplit) hMiddle]
    exact ⟨_, _, List.append_assoc _ _ _⟩
  · obtain ⟨front, middle, back, hSplit, hMiddle⟩ := hParts later hLater
    have hLetters := (List.forall_mem_cons.mp h.letters).2
    refine ⟨front ++ ([c] ++ (middle ++ back)), ?_, ?_⟩
    · rw [← skeleton_filter value, hSplit, skeleton_append, skeleton_append front, skeleton_append [c], skeleton_blank hDropped,
        List.nil_append]
    · cases written c with
      | kept _ _ hNone _ => rw [hNone] at hEnd; cases hEnd
      | blank _ _ hNone => rw [hNone] at hEnd; cases hEnd
      | escaped more hEscape hFixed hSmall hLower hParts =>
          have hHere : first :: later <:+: more ++ (later ++ normalize library (escapeText back)) :=
            (hParts _ _ h).mpr (.inl ⟨first, later, rfl, hEnd, List.prefix_append _ _⟩)
          rw [escapeText_append, normalize_append, List.singleton_append, escapeText_cons, normalize_append,
            normalize_escaped library hEscape hFixed, escapeText_append, normalize_append,
            escapeText_of_phrase library hLetters (hKeptAll hSplit) hMiddle]
          exact (hHere.trans (List.suffix_cons _ _).isInfix).trans (List.suffix_append _ _).isInfix
  · obtain ⟨front, middle, back, hSplit, hMiddle⟩ := hParts (c :: later) hLater
    cases middle with
    | nil => cases hMiddle
    | cons d middle =>
        rw [List.map_cons, List.cons.injEq] at hMiddle
        have hSame : d = c := lower_control library hMiddle.1 (by rw [hEnd]; exact Option.some_ne_none _)
        subst hSame
        have hLetters := (List.forall_mem_cons.mp h.letters).2
        refine ⟨front ++ (d :: middle ++ back), by rw [← hSplit, skeleton_filter], ?_⟩
        cases written d with
        | kept _ _ hNone _ => rw [hNone] at hEnd; cases hEnd
        | blank _ _ hNone => rw [hNone] at hEnd; cases hEnd
        | escaped more hEscape hFixed hSmall hLower hParts =>
            have hHere : first :: later <:+: more ++ (later ++ normalize library (escapeText back)) :=
              (hParts _ _ h).mpr (.inl ⟨first, later, rfl, hEnd, List.prefix_append _ _⟩)
            have hTail : ∀ e ∈ middle, isDropped e = false := fun e he => hKeptAll hSplit e (List.mem_cons_of_mem _ he)
            rw [escapeText_append, normalize_append, List.cons_append, escapeText_cons, normalize_append,
              normalize_escaped library hEscape hFixed, escapeText_append, normalize_append,
              escapeText_of_phrase library hLetters hTail hMiddle.2]
            exact (hHere.trans (List.suffix_cons _ _).isInfix).trans (List.suffix_append _ _).isInfix

/-! Silence. -/

/-- The characters that are kept, each behind a line break. -/
def spread (value : Text) : Text := (value.filter fun c => !isDropped c).flatMap fun c => [10, c]

theorem skeleton_spread (value : Text) : skeleton (spread value) = skeleton value := by
  rw [← skeleton_filter value, spread]
  have hKept : ∀ c ∈ value.filter (fun c => !isDropped c), isDropped c = false := fun c hMem => by
    simpa using (List.mem_filter.mp hMem).2
  generalize value.filter (fun c => !isDropped c) = kept at hKept ⊢
  induction kept with
  | nil => rfl
  | cons c rest ih =>
      obtain ⟨hFirst, hRest⟩ := List.forall_mem_cons.mp hKept
      have hBreak : skeleton [10, c] = skeleton [c] := by
        rw [show [10, c] = [10] ++ [c] from rfl, skeleton_append, skeleton_blank (by decide), List.nil_append]
      rw [List.flatMap_cons, skeleton_append, ih hRest, hBreak, ← skeleton_append, List.singleton_append]

/-- A spread string says no phrase: every letter stands alone. -/
theorem spread_silent {p value : Text} (h : Sayable p) : ¬ p <:+: normalize library (escapeText (spread value)) := by
  have hKept : ∀ c ∈ value.filter (fun c => !isDropped c), isDropped c = false := fun c hMem => by
    simpa using (List.mem_filter.mp hMem).2
  unfold spread
  generalize value.filter (fun c => !isDropped c) = kept at hKept ⊢
  induction kept with
  | nil => exact fun hSays => h.ne_nil (List.infix_nil.mp hSays)
  | cons c rest ih =>
      obtain ⟨hFirst, hRest⟩ := List.forall_mem_cons.mp hKept
      -- What follows starts with a backslash, so no phrase begins right before it.
      have hNext : ∀ q : Text, (∀ d ∈ q, isPhraseCode d = true) → q ≠ [] →
          ¬ q <+: normalize library (escapeText (rest.flatMap fun c => [10, c])) := by
        intro q hLetters hSome hPrefix
        cases rest with
        | nil => exact hSome (List.prefix_nil.mp hPrefix)
        | cons d rest =>
            obtain ⟨first, q, rfl⟩ := List.exists_cons_of_ne_nil hSome
            rw [List.flatMap_cons, List.cons_append, escapeText_cons, normalize_append,
              show normalize library (escapeCode 10) = [92, 110] from normalize_allFixed library rfl, List.cons_append,
              List.cons_prefix_cons] at hPrefix
            have hLetter := hLetters first List.mem_cons_self
            rw [hPrefix.1] at hLetter
            cases hLetter
      have hAlone : ∀ first later, p = first :: later →
          ¬ later <+: normalize library (escapeText (rest.flatMap fun c => [10, c])) := by
        rintro first later rfl
        refine hNext later (List.forall_mem_cons.mp h.letters).2 ?_
        rintro rfl
        exact absurd h.length (by simp)
      intro hSays
      rw [List.flatMap_cons, List.cons_append, escapeText_cons, normalize_append,
        show normalize library (escapeCode 10) = [92, 110] from normalize_allFixed library rfl, List.cons_append,
        infix_fixed h rfl, List.cons_append, List.nil_append, infix_letter h] at hSays
      rcases hSays with ⟨first, later, rfl, hSame, -⟩ | hSays
      · exact h.first (by rw [List.head?_cons, hSame])
      rw [List.cons_append, List.nil_append, escapeText_cons, normalize_append] at hSays
      cases written c with
      | kept hEscape _ _ _ =>
          rw [hEscape, normalize_kept library hFirst, normalize_nil, List.cons_append, List.nil_append, infix_letter h] at hSays
          rcases hSays with ⟨first, later, hPhrase, -, hLater⟩ | hSays
          · exact hAlone first later hPhrase hLater
          · exact ih hRest hSays
      | blank hEscape hDropped _ =>
          rw [hFirst] at hDropped
          cases hDropped
      | escaped more hEscape hFixed hSmall hLower hParts =>
          rw [normalize_escaped library hEscape hFixed, List.cons_append, infix_fixed h rfl, hParts p _ h] at hSays
          rcases hSays with ⟨first, later, hPhrase, -, hLater⟩ | hSays
          · exact hAlone first later hPhrase hLater
          · exact ih hRest hSays

end OutputSafety

end QsAi
