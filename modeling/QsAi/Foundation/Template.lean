import Mathlib.Data.List.TakeWhile
import QsAi.Foundation.PyJson

/-! Text templates. A placeholder is a name between double braces; the names are
nonempty texts of given characters. A template is read from left to right, and every
placeholder is replaced by the value of its name. -/
namespace Template

open PyJson

/-- What a template consists of. -/
inductive Piece
  | literal (c : Nat)
  | placeholder (name : Text)
deriving DecidableEq

variable (isNameCode : Nat → Bool)

/-- The text of a placeholder. -/
def spell (name : Text) : Text := 123 :: 123 :: (name ++ [125, 125])

def IsName (name : Text) : Prop := name ≠ [] ∧ name.all isNameCode = true

instance (name : Text) : Decidable (IsName isNameCode name) := inferInstanceAs (Decidable (_ ∧ _))

/-- The name of the placeholder that a text starts with, and what follows it. -/
def start (input : Text) : Option (Text × Text) :=
  if input.take 2 = [123, 123] ∧ (input.drop 2).takeWhile isNameCode ≠ [] ∧
      ((input.drop 2).dropWhile isNameCode).take 2 = [125, 125] then
    some ((input.drop 2).takeWhile isNameCode, ((input.drop 2).dropWhile isNameCode).drop 2)
  else none

/-- The pieces of a template, as many as the fuel allows. -/
def scan : Nat → Text → List Piece
  | 0, _ => []
  | _ + 1, [] => []
  | fuel + 1, c :: rest =>
      match start isNameCode (c :: rest) with
      | some (name, after) => .placeholder name :: scan fuel after
      | none => .literal c :: scan fuel rest

def pieces (template : Text) : List Piece := scan isNameCode template.length template

/-- The names of the placeholders, in their order (`findall`). -/
def names (template : Text) : List Text :=
  (pieces isNameCode template).filterMap fun piece =>
    match piece with
    | .literal _ => none
    | .placeholder name => some name

/-- What a piece becomes. -/
def Piece.fill (values : Text → Option Text) : Piece → Option Text
  | .literal c => some [c]
  | .placeholder name => values name

def fillAll (values : Text → Option Text) (pieces : List Piece) : Option Text :=
  (pieces.mapM (Piece.fill values)).map List.flatten

/-- Replace every placeholder (`sub`); none when a name has no value. -/
def substitute (values : Text → Option Text) (template : Text) : Option Text := fillAll values (pieces isNameCode template)

/-- The output is the template with each placeholder, and nothing else, replaced by
the value of its name. -/
inductive Rendered (values : Text → Option Text) : Text → Text → Prop
  | done : Rendered values [] []
  | placeholder {template name value rest output : Text} (hName : IsName isNameCode name)
      (hTemplate : template = spell name ++ rest) (hValue : values name = some value) (hRest : Rendered values rest output) :
      Rendered values template (value ++ output)
  | literal {c : Nat} {rest output : Text} (hLiteral : ∀ name after, IsName isNameCode name → c :: rest ≠ spell name ++ after)
      (hRest : Rendered values rest output) : Rendered values (c :: rest) (c :: output)

variable {isNameCode}

theorem fillAll_nil {values : Text → Option Text} {output : Text} : fillAll values [] = some output ↔ output = [] := by
  simp [fillAll, eq_comm]

theorem fillAll_cons {values : Text → Option Text} {piece : Piece} {rest : List Piece} {output : Text} :
    fillAll values (piece :: rest) = some output ↔
      ∃ first other, piece.fill values = some first ∧ fillAll values rest = some other ∧ output = first ++ other := by
  simp only [fillAll, List.mapM_cons, Option.bind_eq_bind, Option.map_eq_some_iff, Option.bind_eq_some_iff, Option.pure_def,
    Option.some.injEq]
  constructor
  · rintro ⟨_, ⟨first, hFirst, others, hOthers, rfl⟩, rfl⟩
    exact ⟨first, _, hFirst, ⟨others, hOthers, rfl⟩, rfl⟩
  · rintro ⟨first, _, hFirst, ⟨others, hOthers, rfl⟩, rfl⟩
    exact ⟨_, ⟨first, hFirst, others, hOthers, rfl⟩, rfl⟩

section Scanned

variable (hBrace : isNameCode 125 = false)
include hBrace

/-- A text starts with a placeholder in at most one way. -/
theorem start_iff {input name after : Text} :
    start isNameCode input = some (name, after) ↔ IsName isNameCode name ∧ input = spell name ++ after := by
  unfold start
  constructor
  · intro h
    split at h
    · rename_i hParts
      obtain ⟨hOpen, hSome, hClose⟩ := hParts
      cases h
      refine ⟨⟨hSome, List.all_eq_true.mpr fun c hc => List.mem_takeWhile_imp hc⟩, ?_⟩
      calc input = input.take 2 ++ input.drop 2 := (List.take_append_drop 2 input).symm
        _ = [123, 123] ++ ((input.drop 2).takeWhile isNameCode ++ (input.drop 2).dropWhile isNameCode) := by
          rw [hOpen, List.takeWhile_append_dropWhile]
        _ = [123, 123] ++ ((input.drop 2).takeWhile isNameCode ++
              ([125, 125] ++ ((input.drop 2).dropWhile isNameCode).drop 2)) := by
          rw [← hClose, List.take_append_drop]
        _ = _ := by simp [spell]
    · cases h
  · rintro ⟨⟨hSome, hAll⟩, rfl⟩
    have hCodes : ∀ c ∈ name, isNameCode c = true := List.all_eq_true.mp hAll
    have hDrop : (spell name ++ after).drop 2 = name ++ 125 :: 125 :: after := by simp [spell]
    have hTake : (name ++ 125 :: 125 :: after).takeWhile isNameCode = name := by
      rw [List.takeWhile_append_of_pos hCodes, List.takeWhile_cons_of_neg (by simp [hBrace]), List.append_nil]
    have hRest : (name ++ 125 :: 125 :: after).dropWhile isNameCode = 125 :: 125 :: after := by
      rw [List.dropWhile_append_of_pos hCodes, List.dropWhile_cons_of_neg (by simp [hBrace])]
    rw [hDrop, hTake, hRest, if_pos ⟨by simp [spell], hSome, rfl⟩]
    rfl

theorem start_none {input : Text} :
    start isNameCode input = none ↔ ∀ name after, IsName isNameCode name → input ≠ spell name ++ after := by
  rw [Option.eq_none_iff_forall_ne_some]
  constructor
  · intro h name after hName hInput
    exact h (name, after) ((start_iff hBrace).mpr ⟨hName, hInput⟩)
  · rintro h ⟨name, after⟩ hStart
    obtain ⟨hName, hInput⟩ := (start_iff hBrace).mp hStart
    exact h name after hName hInput

omit hBrace in
theorem rendered_nil {values : Text → Option Text} {output : Text} : Rendered isNameCode values [] output ↔ output = [] := by
  constructor
  · intro h
    cases h with
    | done => rfl
    | placeholder hName hTemplate => cases hTemplate
  · rintro rfl
    exact .done

/-- The pieces of a template fill to its rendering, and to nothing else: by
induction on the fuel, which no template of its length uses up. -/
theorem scan_rendered (values : Text → Option Text) (fuel : Nat) : ∀ {template output : Text}, template.length ≤ fuel →
    (fillAll values (scan isNameCode fuel template) = some output ↔ Rendered isNameCode values template output) := by
  induction fuel with
  | zero =>
      intro template output hLength
      obtain rfl := List.eq_nil_of_length_eq_zero (Nat.le_zero.mp hLength)
      rw [scan, fillAll_nil, rendered_nil]
  | succ fuel ih =>
      intro template output hLength
      cases template with
      | nil => rw [scan, fillAll_nil, rendered_nil]
      | cons c rest =>
          rw [List.length_cons] at hLength
          rw [scan]
          cases hStart : start isNameCode (c :: rest) with
          | some found =>
              obtain ⟨name, after⟩ := found
              obtain ⟨hName, hInput⟩ := (start_iff hBrace).mp hStart
              have hAfter : after.length ≤ fuel := by
                have hSame := congrArg List.length hInput
                simp only [List.length_cons, spell, List.length_append] at hSame
                omega
              simp only [fillAll_cons, ih hAfter, Piece.fill]
              constructor
              · rintro ⟨value, other, hValue, hRest, rfl⟩
                exact .placeholder hName hInput hValue hRest
              · intro h
                cases h with
                | placeholder hOther hTemplate hValue hRest =>
                    rw [(start_iff hBrace).mpr ⟨hOther, hTemplate⟩, Option.some.injEq, Prod.mk.injEq] at hStart
                    obtain ⟨rfl, rfl⟩ := hStart
                    exact ⟨_, _, hValue, hRest, rfl⟩
                | literal hLiteral => exact absurd hInput (hLiteral name after hName)
          | none =>
              have hNone := (start_none hBrace).mp hStart
              simp only [fillAll_cons, ih (Nat.le_of_succ_le_succ hLength), Piece.fill, Option.some.injEq]
              constructor
              · rintro ⟨_, other, rfl, hRest, rfl⟩
                exact .literal hNone hRest
              · intro h
                cases h with
                | placeholder hOther hTemplate => exact absurd hTemplate (hNone _ _ hOther)
                | literal hLiteral hRest => exact ⟨_, _, rfl, hRest, rfl⟩

theorem substitute_iff (values : Text → Option Text) (template output : Text) :
    substitute isNameCode values template = some output ↔ Rendered isNameCode values template output :=
  scan_rendered hBrace values template.length (Nat.le_refl _)

/-- A template has one rendering. -/
theorem Rendered.unique {values : Text → Option Text} {template output other : Text}
    (h : Rendered isNameCode values template output) (hOther : Rendered isNameCode values template other) :
    output = other := by
  rw [← substitute_iff hBrace] at h hOther
  exact Option.some.inj (h.symm.trans hOther)

end Scanned

/-- Names that a template does not use do not matter. -/
theorem fillAll_congr {values more : Text → Option Text} {pieces : List Piece}
    (h : ∀ name, .placeholder name ∈ pieces → values name = more name) : fillAll values pieces = fillAll more pieces := by
  induction pieces with
  | nil => rfl
  | cons piece rest ih =>
      have hRest := ih fun name hName => h name (List.mem_cons_of_mem _ hName)
      have hFirst : piece.fill values = piece.fill more := by
        cases piece with
        | literal c => rfl
        | placeholder name => exact h name List.mem_cons_self
      ext output
      simp only [Option.mem_def, fillAll_cons, hRest, hFirst]

theorem mem_names {template name : Text} : name ∈ names isNameCode template ↔ .placeholder name ∈ pieces isNameCode template := by
  simp only [names, List.mem_filterMap]
  constructor
  · rintro ⟨piece, hPiece, hName⟩
    cases piece with
    | literal c => cases hName
    | placeholder found =>
        cases hName
        exact hPiece
  · intro h
    exact ⟨_, h, rfl⟩

end Template
