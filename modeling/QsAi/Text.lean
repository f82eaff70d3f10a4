import QsAi.Foundation.PyJson

/-! Text checks shared by every record of the evaluation: identities, reasons
and fingerprints, and the errors a refused operation reports. -/
namespace QsAi

/-- How an operation refuses: a lost race or inconsistent stored evidence, an
invalid value, an invalid judge decision, a missing asset, or a violated unique
key. The text is the one the service raises. -/
inductive Rejection
  | conflict (message : String)
  | invalid (message : String)
  | decisionInvalid (message : String)
  | unavailable (message : String)
  | notFound (message : String)
  | integrity (constraint : String)
deriving DecidableEq, Repr

/-- The code points `str.strip` removes. -/
def isSpaceCode (n : Nat) : Bool :=
  (9 ≤ n && n ≤ 13) || (28 ≤ n && n ≤ 32) || n == 0x85 || n == 0xA0 || n == 0x1680 ||
    (0x2000 ≤ n && n ≤ 0x200A) || n == 0x2028 || n == 0x2029 || n == 0x202F || n == 0x205F || n == 0x3000

def isSpace (c : Char) : Bool := isSpaceCode c.toNat

/-- `str.strip` on a text that may hold surrogates. -/
def stripText (value : PyJson.Text) : PyJson.Text :=
  ((value.dropWhile isSpaceCode).reverse.dropWhile isSpaceCode).reverse

def strip (value : String) : String :=
  String.ofList ((value.toList.dropWhile isSpace).reverse.dropWhile isSpace).reverse

/-- Number of bytes of the UTF-8 text. -/
def byteLength (value : String) : Nat := value.utf8ByteSize

def containsAny (value : String) (characters : List Char) : Bool :=
  value.toList.any (characters.contains ·)

private def idCharacter (c : Char) : Bool :=
  c.isAlphanum || c == ':' || c == '.' || c == '_' || c == '/' || c == '-'

/-- The form of every identity: a letter or digit, then at most 127 letters,
digits, colons, dots, underscores, slashes or dashes. -/
def validId (value : String) : Bool :=
  match value.toList with
  | [] => false
  | first :: rest => first.isAlphanum && rest.length ≤ 127 && rest.all idCharacter

/-- The form of codes and provider names: a small letter, then at most 127
small letters, digits, underscores or dashes. -/
def validCode (value : String) : Bool :=
  match value.toList with
  | [] => false
  | first :: rest =>
      first.isLower && rest.length ≤ 127 &&
        rest.all fun c => c.isLower || c.isDigit || c == '_' || c == '-'

/-- `sha256:` and 64 small hexadecimal digits. -/
def validFingerprint (value : String) : Bool :=
  value.toList.take 7 == "sha256:".toList && (value.toList.drop 7).length == 64 &&
    (value.toList.drop 7).all fun c => c.isDigit || ('a' ≤ c && c ≤ 'f')

/-- An audited free-text reason: not blank, bounded, without angle brackets. -/
def validReason (reason : String) : Bool :=
  strip reason != "" && byteLength reason ≤ 1000 && !containsAny reason ['<', '>']

private theorem idCharacter_code {c : Char} (h : idCharacter c = true) :
    45 ≤ c.toNat ∧ c.toNat ≤ 122 ∧ c.toNat ≠ 60 ∧ c.toNat ≠ 62 ∧ c.toNat ≠ 92 := by
  delta idCharacter Char.isAlphanum Char.isAlpha Char.isUpper Char.isLower Char.isDigit at h
  simp only [Bool.or_eq_true, beq_iff_eq] at h
  rcases h with ((((h | h) | h) | h) | h) | h
  · simp only [Bool.and_eq_true, decide_eq_true_eq, UInt32.le_iff_toNat_le, ge_iff_le] at h
    change ((65 ≤ c.toNat ∧ c.toNat ≤ 90) ∨ (97 ≤ c.toNat ∧ c.toNat ≤ 122)) ∨
      (48 ≤ c.toNat ∧ c.toNat ≤ 57) at h
    omega
  all_goals subst h; decide

private theorem not_isSpace_of_idCharacter {c : Char} (h : idCharacter c = true) : isSpace c = false := by
  have hCode := idCharacter_code h
  simp only [isSpace, isSpaceCode, Bool.or_eq_false_iff, Bool.and_eq_false_iff, decide_eq_false_iff_not, beq_eq_false_iff_ne]
  omega

private theorem all_idCharacter {value : String} (h : validId value = true) :
    ∀ c ∈ value.toList, idCharacter c = true := by
  unfold validId at h
  split at h
  · cases h
  · rename_i first rest hChars
    simp only [Bool.and_eq_true, List.all_eq_true] at h
    rw [hChars]
    intro c hc
    rcases List.mem_cons.mp hc with rfl | hc
    · simp [idCharacter, h.1.1]
    · exact h.2 c hc

/-- An identity carries no whitespace, so stripping leaves it as it is. -/
theorem strip_of_validId {value : String} (h : validId value = true) : strip value = value := by
  have hFirst : ∀ (chars : List Char), (∀ c ∈ chars, isSpace c = false) → chars.dropWhile isSpace = chars := by
    intro chars hChars
    cases chars with
    | nil => rfl
    | cons c rest => simp [hChars c (by simp)]
  have hAll : ∀ c ∈ value.toList, isSpace c = false := fun c hc =>
    not_isSpace_of_idCharacter (all_idCharacter h c hc)
  unfold strip
  rw [hFirst _ hAll, hFirst _ (by simpa using hAll), List.reverse_reverse, String.ofList_toList]

/-- The characters of an identity. -/
theorem codes_of_validId {value : String} (h : validId value = true) : ∀ c ∈ value.toList, 45 ≤ c.toNat ∧ c.toNat ≤ 122 ∧ c.toNat ≠ 92 := by
  intro c hc
  have hCode := idCharacter_code (all_idCharacter h c hc)
  omega

theorem length_of_validId {value : String} (h : validId value = true) : value.toList.length ≤ 128 := by
  unfold validId at h
  split at h
  · cases h
  · rename_i first rest hChars
    simp only [Bool.and_eq_true, decide_eq_true_eq] at h
    rw [hChars, List.length_cons]
    omega

end QsAi
