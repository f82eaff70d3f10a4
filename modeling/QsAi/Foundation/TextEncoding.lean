import QsAi.Foundation.BigEndian
import QsAi.Foundation.JsonPrint

/-! Texts and bytes. JSON is read from arbitrary bytes; ASCII texts are their own
bytes; byte strings are written as hexadecimal digits and in base 64. -/
namespace TextEncoding

open PyJson BigEndian

/-- The bytes of a text of small code points. -/
def asciiEncode (value : Text) : Bytes := value.map UInt8.ofNat

def codes (bytes : Bytes) : Text := bytes.map (·.toNat)

def continues (c : Nat) : Bool := 0x80 ≤ c && c < 0xC0

/-- UTF-8 in which surrogates pass. -/
def utf8Text : List Nat → Option Text
  | [] => some []
  | a :: rest =>
      if a < 0x80 then (utf8Text rest).map (a :: ·)
      else
        match rest with
        | [] => none
        | b :: rest =>
            if 0xC2 ≤ a ∧ a < 0xE0 ∧ continues b then (utf8Text rest).map ((64 * (a - 0xC0) + (b - 0x80)) :: ·)
            else
              match rest with
              | [] => none
              | c :: rest =>
                  if 0xE0 ≤ a ∧ a < 0xF0 ∧ continues b ∧ continues c ∧ (a = 0xE0 → 0xA0 ≤ b) then
                    (utf8Text rest).map ((4096 * (a - 0xE0) + 64 * (b - 0x80) + (c - 0x80)) :: ·)
                  else
                    match rest with
                    | [] => none
                    | d :: rest =>
                        if 0xF0 ≤ a ∧ a < 0xF5 ∧ continues b ∧ continues c ∧ continues d ∧ (a = 0xF0 → 0x90 ≤ b) ∧
                            (a = 0xF4 → b < 0x90) then
                          (utf8Text rest).map
                            ((262144 * (a - 0xF0) + 4096 * (b - 0x80) + 64 * (c - 0x80) + (d - 0x80)) :: ·)
                        else none

/-- The text that the JSON reader takes from bytes. -/
def bytesText (octets : List Nat) : Option Text :=
  match detectEncoding octets with
  | .utf8 => utf8Text octets
  | .utf8Sig => utf8Text (octets.drop 3)
  | .utf16 =>
      match octets with
      | a :: _ :: rest => (units16 (decide (a = 0xFE)) rest).map joinUnits
      | _ => none
  | .utf16be => (units16 true octets).map joinUnits
  | .utf16le => (units16 false octets).map joinUnits
  | .utf32 =>
      match octets with
      | a :: _ :: _ :: _ :: rest => units32 (decide (a = 0)) rest
      | _ => none
  | .utf32be => units32 true octets
  | .utf32le => units32 false octets

/-- `json.loads` of bytes. -/
def loadsOctets (hook : List (Text × Value) → Except Refusal Value) (depth : Option Nat) (bytes : Bytes) :
    Except Refusal Value :=
  match bytesText (codes bytes) with
  | none => .error .malformed
  | some input => decode hook depth input

theorem utf8Text_ascii {value : Text} (h : ∀ c ∈ value, c < 0x80) : utf8Text value = some value := by
  induction value with
  | nil => rfl
  | cons c value ih =>
      unfold utf8Text
      rw [if_pos (h c (by simp)), ih fun d hd => h d (by simp [hd])]
      rfl

theorem codes_asciiEncode {value : Text} (h : ∀ c ∈ value, c < 0x80) : codes (asciiEncode value) = value := by
  rw [codes, asciiEncode, List.map_map]
  have hSame : ∀ c ∈ value, ((fun byte : UInt8 => byte.toNat) ∘ UInt8.ofNat) c = c := by
    intro c hc
    have hLess := h c hc
    rw [Function.comp_apply, UInt8.toNat_ofNat']
    omega
  exact (List.map_congr_left hSame).trans (List.map_id _)

/-- The bytes of an ASCII text that starts like an object are read as the text. -/
theorem loadsOctets_asciiEncode {hook : List (Text × Value) → Except Refusal Value} {depth : Option Nat} {rest : Text}
    (h : ∀ c ∈ rest, c < 0x80) :
    loadsOctets hook depth (asciiEncode (123 :: 34 :: rest)) = loads hook depth (123 :: 34 :: rest) := by
  have hAscii : ∀ c ∈ 123 :: 34 :: rest, c < 0x80 := by
    intro c hc
    simp only [List.mem_cons] at hc
    rcases hc with rfl | rfl | hc
    · decide
    · decide
    · exact h c hc
  have hDetect : detectEncoding (123 :: 34 :: rest) = .utf8 :=
    detectEncoding_utf8 (by decide) (by decide) fun hMark => absurd hMark (by decide)
  rw [loadsOctets, codes_asciiEncode hAscii, bytesText, hDetect]
  simp only [utf8Text_ascii hAscii]
  rw [loads, if_neg (by simp)]

/-! Hexadecimal digits. -/

def hexCode (n : Nat) : Nat := if n < 10 then 48 + n else 87 + n

/-- `bytes.hex`. -/
def hexText (bytes : Bytes) : Text := bytes.flatMap fun byte => [hexCode (byte.toNat / 16), hexCode (byte.toNat % 16)]

/-- The value of a hexadecimal digit. -/
def hexDigit (c : Nat) : Option Nat :=
  if 48 ≤ c ∧ c ≤ 57 then some (c - 48)
  else if 97 ≤ c ∧ c ≤ 102 then some (c - 87)
  else if 65 ≤ c ∧ c ≤ 70 then some (c - 55)
  else none

def isBlank (c : Nat) : Bool := c == 32 || (9 ≤ c && c ≤ 13)

/-- `bytes.fromhex`: pairs of digits with blanks between the pairs. -/
def fromhex : Text → Option Bytes
  | [] => some []
  | [c] => if isBlank c then some [] else none
  | c :: d :: rest =>
      if isBlank c then fromhex (d :: rest)
      else
        match hexDigit c, hexDigit d with
        | some high, some low => (fromhex rest).map (UInt8.ofNat (16 * high + low) :: ·)
        | _, _ => none

theorem hexDigit_hexCode {n : Nat} (h : n < 16) : isBlank (hexCode n) = false ∧ hexDigit (hexCode n) = some n := by
  have hAll : ∀ n < 16, isBlank (hexCode n) = false ∧ hexDigit (hexCode n) = some n := by decide
  exact hAll n h

/-- Reading undoes writing. -/
theorem fromhex_hexText (bytes : Bytes) : fromhex (hexText bytes) = some bytes := by
  induction bytes with
  | nil => rfl
  | cons byte bytes ih =>
      have hByte := byte.toNat_lt
      obtain ⟨hBlank, hHigh⟩ := hexDigit_hexCode (n := byte.toNat / 16) (by omega)
      obtain ⟨-, hLow⟩ := hexDigit_hexCode (n := byte.toNat % 16) (by omega)
      have hSame : UInt8.ofNat (16 * (byte.toNat / 16) + byte.toNat % 16) = byte := by
        rw [Nat.div_add_mod, UInt8.ofNat_toNat]
      rw [hexText, List.flatMap_cons, show List.flatMap _ bytes = hexText bytes from rfl, List.cons_append, List.cons_append,
        List.nil_append, fromhex, hBlank, if_neg Bool.false_ne_true, hHigh, hLow, ih]
      simp only [Option.map_some, hSame]

theorem hexCode_plain {n : Nat} (h : n < 16) : plainCode (hexCode n) = true := by
  have hAll : ∀ n < 16, plainCode (hexCode n) = true := by decide
  exact hAll n h

theorem hexText_plain (bytes : Bytes) : Plain (hexText bytes) := by
  intro c hc
  obtain ⟨byte, -, hc⟩ := List.mem_flatMap.mp hc
  have hByte := byte.toNat_lt
  simp only [List.mem_cons, List.not_mem_nil, or_false] at hc
  rcases hc with rfl | rfl
  · exact hexCode_plain (by omega)
  · exact hexCode_plain (by omega)

theorem length_hexText (bytes : Bytes) : (hexText bytes).length = 2 * bytes.length := by
  induction bytes with
  | nil => rfl
  | cons byte bytes ih =>
      rw [hexText, List.flatMap_cons, List.length_append, show List.flatMap _ bytes = hexText bytes from rfl, ih]
      simp
      omega

/-! Base 64. -/

def base64Code (n : Nat) : Nat :=
  if n < 26 then 65 + n else if n < 52 then 71 + n else if n < 62 then n - 4 else if n = 62 then 43 else 47

/-- `base64.b64encode`. -/
def base64Text : Bytes → Text
  | [] => []
  | [a] => [base64Code (a.toNat / 4), base64Code (a.toNat % 4 * 16), 61, 61]
  | [a, b] => [base64Code (a.toNat / 4), base64Code (a.toNat % 4 * 16 + b.toNat / 16), base64Code (b.toNat % 16 * 4), 61]
  | a :: b :: c :: rest =>
      base64Code (a.toNat / 4) :: base64Code (a.toNat % 4 * 16 + b.toNat / 16) ::
        base64Code (b.toNat % 16 * 4 + c.toNat / 64) :: base64Code (c.toNat % 64) :: base64Text rest

/-- The value of a character of base 64. -/
def base64Digit (c : Nat) : Option Nat :=
  if 65 ≤ c ∧ c ≤ 90 then some (c - 65)
  else if 97 ≤ c ∧ c ≤ 122 then some (c - 71)
  else if 48 ≤ c ∧ c ≤ 57 then some (c + 4)
  else if c = 43 then some 62
  else if c = 47 then some 63
  else none

def joinPair (a b : Nat) : UInt8 := UInt8.ofNat (4 * a + b / 16)

def joinMiddle (b c : Nat) : UInt8 := UInt8.ofNat (b % 16 * 16 + c / 4)

def joinLast (c d : Nat) : UInt8 := UInt8.ofNat (c % 4 * 64 + d)

/-- `base64.b64decode` with `validate`: groups of four characters, padded at the
end only. The bits under the padding are not looked at. -/
def b64decode : Text → Option Bytes
  | [] => some []
  | [a, b, 61, 61] => do
      let a ← base64Digit a
      let b ← base64Digit b
      pure [joinPair a b]
  | [a, b, c, 61] => do
      let a ← base64Digit a
      let b ← base64Digit b
      let c ← base64Digit c
      pure [joinPair a b, joinMiddle b c]
  | a :: b :: c :: d :: rest => do
      let a ← base64Digit a
      let b ← base64Digit b
      let c ← base64Digit c
      let d ← base64Digit d
      let bytes ← b64decode rest
      pure (joinPair a b :: joinMiddle b c :: joinLast c d :: bytes)
  | _ => none

theorem base64Digit_base64Code {n : Nat} (h : n < 64) : base64Digit (base64Code n) = some n ∧ base64Code n ≠ 61 := by
  have hAll : ∀ n < 64, base64Digit (base64Code n) = some n ∧ base64Code n ≠ 61 := by decide
  exact hAll n h

theorem joinPair_split {a : UInt8} {b : Nat} (h : b < 16) : joinPair (a.toNat / 4) (a.toNat % 4 * 16 + b) = a := by
  have hSame : 4 * (a.toNat / 4) + (a.toNat % 4 * 16 + b) / 16 = a.toNat := by omega
  rw [joinPair, hSame, UInt8.ofNat_toNat]

theorem joinMiddle_split {a b : UInt8} {c : Nat} (h : c < 4) :
    joinMiddle (a.toNat % 4 * 16 + b.toNat / 16) (b.toNat % 16 * 4 + c) = b := by
  have hByte := b.toNat_lt
  have hSame : (a.toNat % 4 * 16 + b.toNat / 16) % 16 * 16 + (b.toNat % 16 * 4 + c) / 4 = b.toNat := by omega
  rw [joinMiddle, hSame, UInt8.ofNat_toNat]

theorem joinLast_split {b c : UInt8} : joinLast (b.toNat % 16 * 4 + c.toNat / 64) (c.toNat % 64) = c := by
  have hByte := c.toNat_lt
  have hSame : (b.toNat % 16 * 4 + c.toNat / 64) % 4 * 64 + c.toNat % 64 = c.toNat := by omega
  rw [joinLast, hSame, UInt8.ofNat_toNat]

theorem b64decode_quad {a b c d : Nat} {bytes : Bytes} {rest : Text} (hd : d ≠ 61) {ia ib ic id : Nat}
    (ha : base64Digit a = some ia) (hb : base64Digit b = some ib) (hc : base64Digit c = some ic)
    (hDigit : base64Digit d = some id) (hRest : b64decode rest = some bytes) :
    b64decode (a :: b :: c :: d :: rest) = some (joinPair ia ib :: joinMiddle ib ic :: joinLast ic id :: bytes) := by
  cases rest with
  | nil =>
      unfold b64decode
      split
      · simp_all
      · simp_all
      · simp_all
      · simp_all
      · rename_i hOther
        exact (hOther a b c d [] rfl).elim
  | cons e rest => simp [b64decode, ha, hb, hc, hDigit, hRest]

/-- Reading undoes writing. -/
theorem b64decode_base64Text (bytes : Bytes) : b64decode (base64Text bytes) = some bytes := by
  fun_induction base64Text bytes with
  | case1 => rfl
  | case2 a =>
      have ha := a.toNat_lt
      have hFirst := (base64Digit_base64Code (n := a.toNat / 4) (by omega)).1
      have hSecond := (base64Digit_base64Code (n := a.toNat % 4 * 16) (by omega)).1
      have hSame : joinPair (a.toNat / 4) (a.toNat % 4 * 16) = a := joinPair_split (b := 0) (by decide)
      simp [b64decode, hFirst, hSecond, hSame]
  | case3 a b =>
      have ha := a.toNat_lt
      have hb := b.toNat_lt
      have hFirst := (base64Digit_base64Code (n := a.toNat / 4) (by omega)).1
      have hSecond := (base64Digit_base64Code (n := a.toNat % 4 * 16 + b.toNat / 16) (by omega)).1
      obtain ⟨hThird, hPad⟩ := base64Digit_base64Code (n := b.toNat % 16 * 4) (by omega)
      have hPair : joinPair (a.toNat / 4) (a.toNat % 4 * 16 + b.toNat / 16) = a := joinPair_split (by omega)
      have hMiddle : joinMiddle (a.toNat % 4 * 16 + b.toNat / 16) (b.toNat % 16 * 4) = b := joinMiddle_split (c := 0) (by decide)
      rw [b64decode.eq_3 _ _ _ hPad]
      simp [hFirst, hSecond, hThird, hPair, hMiddle]
  | case4 a b c rest ih =>
      have ha := a.toNat_lt
      have hb := b.toNat_lt
      have hc := c.toNat_lt
      obtain ⟨hFirst, -⟩ := base64Digit_base64Code (n := a.toNat / 4) (by omega)
      obtain ⟨hSecond, -⟩ := base64Digit_base64Code (n := a.toNat % 4 * 16 + b.toNat / 16) (by omega)
      obtain ⟨hThird, -⟩ := base64Digit_base64Code (n := b.toNat % 16 * 4 + c.toNat / 64) (by omega)
      obtain ⟨hFourth, hPad⟩ := base64Digit_base64Code (n := c.toNat % 64) (by omega)
      rw [b64decode_quad hPad hFirst hSecond hThird hFourth ih, joinPair_split (by omega), joinMiddle_split (by omega),
        joinLast_split]

theorem base64Code_plain {n : Nat} (h : n < 64) : plainCode (base64Code n) = true := by
  have hAll : ∀ n < 64, plainCode (base64Code n) = true := by decide
  exact hAll n h

theorem base64Text_plain (bytes : Bytes) : Plain (base64Text bytes) := by
  intro d hd
  fun_induction base64Text bytes with
  | case1 => cases hd
  | case2 a =>
      have ha := a.toNat_lt
      simp only [List.mem_cons, List.not_mem_nil, or_false] at hd
      rcases hd with rfl | rfl | rfl | rfl
      · exact base64Code_plain (by omega)
      · exact base64Code_plain (by omega)
      · decide
      · decide
  | case3 a b =>
      have ha := a.toNat_lt
      have hb := b.toNat_lt
      simp only [List.mem_cons, List.not_mem_nil, or_false] at hd
      rcases hd with rfl | rfl | rfl | rfl
      · exact base64Code_plain (by omega)
      · exact base64Code_plain (by omega)
      · exact base64Code_plain (by omega)
      · decide
  | case4 a b c rest ih =>
      have ha := a.toNat_lt
      have hb := b.toNat_lt
      have hc := c.toNat_lt
      simp only [List.mem_cons] at hd
      rcases hd with rfl | rfl | rfl | rfl | hd
      · exact base64Code_plain (by omega)
      · exact base64Code_plain (by omega)
      · exact base64Code_plain (by omega)
      · exact base64Code_plain (by omega)
      · exact ih hd

theorem length_base64Text (bytes : Bytes) : 3 * (base64Text bytes).length ≤ 4 * (bytes.length + 2) := by
  fun_induction base64Text bytes with
  | case1 => simp
  | case2 a => simp
  | case3 a b => simp
  | case4 a b c rest ih => simp at ih ⊢; omega

end TextEncoding
