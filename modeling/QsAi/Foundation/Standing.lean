import Mathlib.Data.List.Basic

/-! Words that stand alone in a text. A word is made of letters; it stands where
no letter follows and nothing before it joins on. Whatever neither joins on nor is
a letter separates a text, so words are looked for on each side of it alone. -/
namespace Standing

variable {α : Type} (joins letter : α → Bool) (word : List α → Bool)

/-- Nothing of the kind stands there. -/
def Clear (letter : α → Bool) (neighbour : Option α) : Prop := ∀ c ∈ neighbour, letter c = false

/-- What stands at the end, in the text or before it. -/
def lastOf (before : Option α) (front : List α) : Option α := front.getLast?.or before

/-- The word stands at the start of the text. -/
def StandsHere (before : Option α) (code text : List α) : Prop :=
  word code = true ∧ Clear joins before ∧ ∃ back, text = code ++ back ∧ Clear letter back.head?

/-- The word stands somewhere in the text. -/
def StandsFrom (before : Option α) (code text : List α) : Prop :=
  word code = true ∧ ∃ front back, text = front ++ (code ++ back) ∧ Clear joins (lastOf before front) ∧ Clear letter back.head?

variable {joins letter word} {before : Option α} {code : List α}

@[simp] theorem clear_none : Clear letter (none : Option α) := nofun

@[simp] theorem clear_some {c : α} : Clear letter (some c) ↔ letter c = false := by
  simp [Clear]

theorem lastOf_cons (before : Option α) (c : α) (front : List α) : lastOf before (c :: front) = lastOf (some c) front := by
  rw [lastOf, lastOf, List.getLast?_cons]
  cases front.getLast? <;> rfl

theorem standsFrom_cons {c : α} {rest : List α} : StandsFrom joins letter word before code (c :: rest) ↔
    StandsHere joins letter word before code (c :: rest) ∨ StandsFrom joins letter word (some c) code rest := by
  constructor
  · rintro ⟨hWord, front, back, hText, hFront, hBack⟩
    cases front with
    | nil => exact .inl ⟨hWord, hFront, back, hText, hBack⟩
    | cons first front =>
        rw [List.cons_append, List.cons.injEq] at hText
        obtain ⟨rfl, rfl⟩ := hText
        rw [lastOf_cons] at hFront
        exact .inr ⟨hWord, front, back, rfl, hFront, hBack⟩
  · rintro (⟨hWord, hBefore, back, hText, hBack⟩ | ⟨hWord, front, back, rfl, hFront, hBack⟩)
    · exact ⟨hWord, [], back, hText, hBefore, hBack⟩
    · exact ⟨hWord, c :: front, back, rfl, by rw [lastOf_cons]; exact hFront, hBack⟩

/-- Only whether a letter precedes matters. -/
theorem standsFrom_congr {other : Option α} (h : Clear joins before ↔ Clear joins other) {text : List α} :
    StandsFrom joins letter word before code text ↔ StandsFrom joins letter word other code text := by
  refine and_congr_right fun _ => exists₂_congr fun front back => and_congr_right fun _ => and_congr_left fun _ => ?_
  cases hLast : front.getLast? with
  | none => simpa [lastOf, hLast] using h
  | some c => simp [lastOf, hLast]

/-- Words are not empty. -/
def Proper (word : List α → Bool) : Prop := word [] = false

theorem not_standsFrom_nil (hProper : Proper word) : ¬ StandsFrom joins letter word before code [] := by
  rintro ⟨hWord, front, back, hText, -⟩
  have hNil : front = [] ∧ code = [] ∧ back = [] := by simpa using hText.symm
  rw [hNil.2.1, hProper] at hWord
  cases hWord

/-- Words are made of letters. -/
def Spelled (letter : α → Bool) (word : List α → Bool) : Prop := ∀ code, word code = true → ∀ c ∈ code, letter c = true

/-- What is no letter separates a text. -/
theorem standsFrom_separator (hProper : Proper word) (hSpelled : Spelled letter word) {separator : α}
    (hJoins : joins separator = false) (hSeparator : letter separator = false) {left right : List α} :
    StandsFrom joins letter word before code (left ++ separator :: right) ↔
      StandsFrom joins letter word before code left ∨ StandsFrom joins letter word none code right := by
  have hNone : StandsFrom joins letter word (some separator) code right ↔ StandsFrom joins letter word none code right :=
    standsFrom_congr (by simp [hJoins])
  have hNotHere : ∀ before, ¬ StandsHere joins letter word before code (separator :: right) := by
    rintro before ⟨hWord, -, back, hText, -⟩
    cases code with
    | nil =>
        rw [hProper] at hWord
        cases hWord
    | cons first code =>
        rw [List.cons_append, List.cons.injEq] at hText
        have hLetter := hSpelled _ hWord first List.mem_cons_self
        rw [← hText.1, hSeparator] at hLetter
        cases hLetter
  induction left generalizing before with
  | nil =>
      rw [List.nil_append, standsFrom_cons, hNone]
      exact ⟨fun h => .inr (h.resolve_left (hNotHere before)), fun h => .inr (h.resolve_left (not_standsFrom_nil hProper))⟩
  | cons c left ih =>
      -- A word that starts here ends before the separator.
      have hHere : StandsHere joins letter word before code (c :: (left ++ separator :: right)) ↔
          StandsHere joins letter word before code (c :: left) := by
        refine and_congr_right fun hWord => and_congr_right fun _ => ?_
        constructor
        · rintro ⟨back, hText, hBack⟩
          rw [← List.cons_append] at hText
          rcases List.append_eq_append_iff.mp hText with ⟨more, hCode, hRest⟩ | ⟨more, hLeft, hRest⟩
          · cases more with
            | nil =>
                rw [List.append_nil] at hCode
                exact ⟨[], by rw [hCode, List.append_nil], clear_none⟩
            | cons first more =>
                rw [List.cons_append, List.cons.injEq] at hRest
                have hLetter := hSpelled _ hWord first (hCode ▸ List.mem_append_right _ List.mem_cons_self)
                rw [← hRest.1, hSeparator] at hLetter
                cases hLetter
          · refine ⟨more, hLeft, ?_⟩
            cases more with
            | nil => exact clear_none
            | cons first more =>
                rw [hRest] at hBack
                exact hBack
        · rintro ⟨back, hText, hBack⟩
          refine ⟨back ++ separator :: right, ?_, ?_⟩
          · rw [← List.cons_append, hText, List.append_assoc]
          · cases back with
            | nil => exact clear_some.mpr hSeparator
            | cons first back => exact hBack
      rw [List.cons_append, standsFrom_cons, standsFrom_cons, hHere, or_assoc]
      exact or_congr_right ih

end Standing
