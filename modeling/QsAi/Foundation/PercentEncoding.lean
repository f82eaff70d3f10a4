import QsAi.Foundation.PyJson

/-! Percent encoding. The bytes of a text that are not safe are written as a
percent sign and two digits, so different texts are written differently. -/
namespace PercentEncoding

open PyJson

/-! Codes that no other code starts with. -/

/-- No code word continues another one. -/
def PrefixFree {α β : Type} (code : α → List β) : Prop :=
  ∀ a b x y, code a ++ x = code b ++ y → a = b ∧ x = y

/-- Words of such a code can be written one after the other. -/
theorem PrefixFree.flatMap_injective {α β : Type} {code : α → List β} (h : PrefixFree code) (hSome : ∀ a, code a ≠ []) :
    Function.Injective (List.flatMap code) := by
  intro first
  induction first with
  | nil =>
      intro second hSame
      cases second with
      | nil => rfl
      | cons b second => simp [hSome b] at hSame
  | cons a first ih =>
      intro second hSame
      cases second with
      | nil => simp [hSome a] at hSame
      | cons b second =>
          rw [List.flatMap_cons, List.flatMap_cons] at hSame
          obtain ⟨rfl, hRest⟩ := h _ _ _ _ hSame
          rw [ih hRest]

/-! UTF-8. -/

/-- The bytes of one code point. -/
def utf8Code (c : Nat) : List Nat :=
  if c < 0x80 then [c]
  else if c < 0x800 then [0xC0 + c / 64, 0x80 + c % 64]
  else if c < 0x10000 then [0xE0 + c / 4096, 0x80 + c / 64 % 64, 0x80 + c % 64]
  else [0xF0 + c / 262144, 0x80 + c / 4096 % 64, 0x80 + c / 64 % 64, 0x80 + c % 64]

/-- `str.encode`, which surrogates stop. -/
def utf8Encode (value : Text) : Option (List Nat) :=
  if value.any isSurrogate then none else some (value.flatMap utf8Code)

theorem utf8Code_prefixFree : PrefixFree utf8Code := by
  intro a b x y h
  unfold utf8Code at h
  split at h <;> split at h <;>
    (try split at h) <;> (try split at h) <;> (try split at h) <;> (try split at h) <;>
    simp only [List.cons_append, List.nil_append, List.cons.injEq] at h <;>
    (refine ⟨by omega, ?_⟩; first | exact h.2 | exact h.2.2 | exact h.2.2.2 | exact h.2.2.2.2 | omega)

theorem utf8Encode_injective {a b : Text} {bytes : List Nat} (ha : utf8Encode a = some bytes) (hb : utf8Encode b = some bytes) :
    a = b := by
  unfold utf8Encode at ha hb
  split at ha
  · cases ha
  split at hb
  · cases hb
  refine utf8Code_prefixFree.flatMap_injective ?_ (Option.some.inj (ha.trans hb.symm))
  intro c
  unfold utf8Code
  split <;> (try split) <;> (try split) <;> simp

/-! Quoting. -/

/-- Letters, digits and the marks that are never quoted. -/
def unreserved (c : Nat) : Bool :=
  (65 ≤ c && c ≤ 90) || (97 ≤ c && c ≤ 122) || (48 ≤ c && c ≤ 57) || c == 95 || c == 46 || c == 45 || c == 126

/-- A capital hexadecimal digit. -/
def hexCapital (n : Nat) : Nat := if n < 10 then 48 + n else 55 + n

def quoteByte (safe : List Nat) (byte : Nat) : Text :=
  if unreserved byte || safe.contains byte then [byte] else [37, hexCapital (byte / 16), hexCapital (byte % 16)]

/-- `urllib.parse.quote`. -/
def quote (safe : List Nat) (value : Text) : Option Text := (utf8Encode value).map (·.flatMap (quoteByte safe))

theorem hexCapital_injective {m n : Nat} (h : hexCapital m = hexCapital n) : m = n := by
  unfold hexCapital at h
  split at h <;> split at h <;> omega

theorem quoteByte_prefixFree {safe : List Nat} (hSafe : 37 ∉ safe) : PrefixFree (quoteByte safe) := by
  have hPercent : ∀ c, (unreserved c || safe.contains c) = true → c ≠ 37 := by
    rintro c hc rfl
    rw [Bool.or_eq_true, List.contains_iff_mem] at hc
    exact hc.elim (by decide) hSafe
  intro a b x y h
  unfold quoteByte at h
  split at h
  · rename_i ha
    split at h
    · simpa using h
    · simp only [List.cons_append, List.nil_append, List.cons.injEq] at h
      exact absurd h.1 (hPercent a ha)
  · split at h
    · rename_i hb
      simp only [List.cons_append, List.nil_append, List.cons.injEq] at h
      exact absurd h.1.symm (hPercent b hb)
    · simp only [List.cons_append, List.nil_append, List.cons.injEq, true_and] at h
      have hHigh := hexCapital_injective h.1
      have hLow := hexCapital_injective h.2.1
      exact ⟨by omega, h.2.2⟩

/-- Different texts are quoted differently. -/
theorem quote_injective {safe : List Nat} (hSafe : 37 ∉ safe) {a b quoted : Text} (ha : quote safe a = some quoted)
    (hb : quote safe b = some quoted) : a = b := by
  obtain ⟨first, hFirst, hQuoted⟩ := Option.map_eq_some_iff.mp ha
  obtain ⟨second, hSecond, hSame⟩ := Option.map_eq_some_iff.mp hb
  have hBytes : first = second := by
    refine (quoteByte_prefixFree hSafe).flatMap_injective ?_ (hQuoted.trans hSame.symm)
    intro byte
    unfold quoteByte
    split <;> simp
  subst hBytes
  exact utf8Encode_injective hFirst hSecond

end PercentEncoding
