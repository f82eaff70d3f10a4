import Mathlib.Data.List.Forall2

/-! Computations that refuse. A check either lets the computation go on or ends
it with an error; the lemmas read an accepted computation back as the list of
checks it passed, one bind at a time. -/
namespace Guarded

universe u

variable {ε : Type u} {α β : Type}

/-- Go on when the condition holds, refuse with the given error otherwise. -/
def require (condition : Prop) [Decidable condition] (error : ε) : Except ε Unit :=
  if condition then .ok ⟨⟩ else .error error

/-- The value of an optional lookup, or a refusal when it finds nothing. -/
def demand (value : Option α) (error : ε) : Except ε α :=
  match value with
  | some found => .ok found
  | none => .error error

/-- Build a value that carries the fact that its check accepted it. -/
def certify (check : Except ε Unit) (build : check = .ok ⟨⟩ → α) : Except ε α :=
  match check, build with
  | .ok ⟨⟩, build => .ok (build rfl)
  | .error e, _ => .error e

theorem certify_ok (check : Except ε Unit) (build : check = .ok ⟨⟩ → α) (result : α) :
    certify check build = .ok result ↔ ∃ h : check = .ok ⟨⟩, build h = result := by
  cases check with
  | ok done => simp [certify]
  | error e => simp [certify]

@[simp] theorem require_ok (condition : Prop) [Decidable condition] (error : ε) (done : Unit) :
    require condition error = .ok done ↔ condition := by
  unfold require
  split <;> simp_all

@[simp] theorem demand_ok (value : Option α) (error : ε) (result : α) :
    demand value error = .ok result ↔ value = some result := by
  cases value <;> simp [demand]

@[simp] theorem ok_bind (value : α) (next : α → Except ε β) :
    ((Except.ok value : Except ε α) >>= next) = next value := rfl

/-- An accepted sequence is an accepted first part and an accepted rest. -/
theorem bind_ok (first : Except ε α) (next : α → Except ε β) (result : β) :
    (first >>= next) = .ok result ↔ ∃ value, first = .ok value ∧ next value = .ok result := by
  cases first with
  | error e => simp [bind, Except.bind]
  | ok value => simp

theorem exists_ok {outcome : Except ε α} (h : outcome.toBool = true) : ∃ value, outcome = .ok value := by
  cases outcome with
  | ok value => exact ⟨value, rfl⟩
  | error failure => cases h

theorem bind_total {first : Except ε α} {next : α → Except ε β} {value : α} (hFirst : first = .ok value)
    (hNext : ∃ result, next value = .ok result) : ∃ result, (first >>= next) = .ok result := by
  obtain ⟨result, hResult⟩ := hNext
  exact ⟨result, (bind_ok _ _ _).mpr ⟨value, hFirst, hResult⟩⟩

/-- A leading check is a fact about every accepted computation. -/
theorem require_bind_ok (condition : Prop) [Decidable condition] (error : ε)
    (next : Unit → Except ε β) (result : β) :
    (require condition error >>= next) = .ok result ↔ condition ∧ next ⟨⟩ = .ok result := by
  rw [bind_ok]
  constructor
  · rintro ⟨⟨⟩, hCheck, hRest⟩
    exact ⟨(require_ok _ _ _).mp hCheck, hRest⟩
  · rintro ⟨hCheck, hRest⟩
    exact ⟨⟨⟩, (require_ok _ _ _).mpr hCheck, hRest⟩

@[simp] theorem require_bind_pos {condition : Prop} [Decidable condition] (h : condition) (error : ε)
    (next : Unit → Except ε β) : (require condition error >>= next) = next ⟨⟩ := by
  simp [require, h]

theorem require_bind_neg {condition : Prop} [Decidable condition] (h : ¬ condition) (error : ε)
    (next : Unit → Except ε α) : (require condition error >>= next) = .error error := by
  rw [require, if_neg h]
  rfl

@[simp] theorem pure_ok (value result : α) :
    (pure value : Except ε α) = .ok result ↔ value = result := by
  simp [pure, Except.pure]

@[simp] theorem throw_ok (e : ε) (result : α) : (throw e : Except ε α) = .ok result ↔ False := by
  simp [throw, throwThe, MonadExceptOf.throw]

/-- Renaming the error leaves the accepted computations as they are. -/
@[simp] theorem mapError_ok {δ : Type u} (f : ε → δ) (result : Except ε α) (value : α) :
    result.mapError f = .ok value ↔ result = .ok value := by
  cases result <;> simp [Except.mapError]

/-- A loop of checks accepts exactly when each single check does. -/
theorem forM_ok (items : List α) (check : α → Except ε Unit) (done : Unit) :
    items.forM check = .ok done ↔ ∀ item ∈ items, check item = .ok ⟨⟩ := by
  induction items with
  | nil => simp [List.forM]
  | cons item items ih =>
      rw [List.forM, bind_ok]
      constructor
      · rintro ⟨⟨⟩, hItem, hItems⟩
        exact List.forall_mem_cons.mpr ⟨hItem, ih.mp hItems⟩
      · intro h
        obtain ⟨hItem, hItems⟩ := List.forall_mem_cons.mp h
        exact ⟨⟨⟩, hItem, ih.mpr hItems⟩

/-- A loop that transforms each item succeeds item by item. -/
theorem mapM_ok (items : List α) (step : α → Except ε β) (results : List β) :
    items.mapM step = .ok results ↔
      List.Forall₂ (fun item result => step item = .ok result) items results := by
  induction items generalizing results with
  | nil => cases results <;> simp [pure, Except.pure]
  | cons item items ih =>
      rw [List.mapM_cons, bind_ok]
      constructor
      · rintro ⟨result, hResult, hRest⟩
        rw [bind_ok] at hRest
        obtain ⟨rest, hItems, hEq⟩ := hRest
        rw [pure_ok] at hEq
        subst hEq
        exact .cons hResult ((ih rest).mp hItems)
      · intro h
        cases h with
        | @cons _ result _ rest hResult hRest =>
            refine ⟨result, hResult, ?_⟩
            rw [bind_ok]
            exact ⟨rest, (ih rest).mpr hRest, rfl⟩

/-- Every result of a loop comes from one of its items. -/
theorem mem_mapM {items : List α} {step : α → Except ε β} {results : List β} {result : β}
    (h : items.mapM step = .ok results) (hMem : result ∈ results) : ∃ item ∈ items, step item = .ok result := by
  rw [mapM_ok] at h
  induction h with
  | nil => cases hMem
  | cons hStep _ ih =>
      rcases List.mem_cons.mp hMem with rfl | hMem
      · exact ⟨_, List.mem_cons_self, hStep⟩
      · obtain ⟨item, hItem, hResult⟩ := ih hMem
        exact ⟨item, List.mem_cons_of_mem _ hItem, hResult⟩

/-- A loop over a table that is known row by row. -/
theorem mapM_map {γ : Type} {items : List γ} {row : γ → α} {step : α → Except ε β} {result : γ → β}
    (h : ∀ item ∈ items, step (row item) = .ok (result item)) :
    (items.map row).mapM step = .ok (items.map result) := by
  rw [mapM_ok, List.forall₂_map_left_iff, List.forall₂_map_right_iff, List.forall₂_same]
  exact h

theorem mapM_total {items : List α} {step : α → Except ε β} (h : ∀ item ∈ items, ∃ result, step item = .ok result) :
    ∃ results, items.mapM step = .ok results := by
  induction items with
  | nil => exact ⟨[], rfl⟩
  | cons item items ih =>
      obtain ⟨hItem, hItems⟩ := List.forall_mem_cons.mp h
      obtain ⟨result, hResult⟩ := hItem
      obtain ⟨results, hResults⟩ := ih hItems
      exact ⟨result :: results, (mapM_ok _ _ _).mpr (.cons hResult ((mapM_ok _ _ _).mp hResults))⟩

/-- The same for a step that may find nothing. -/
theorem mapM_some {items : List α} {step : α → Option β} {results : List β} (h : items.mapM step = some results) :
    List.Forall₂ (fun item result => step item = some result) items results := by
  induction items generalizing results with
  | nil =>
      cases h
      exact .nil
  | cons item items ih =>
      simp only [List.mapM_cons, Option.bind_eq_bind, Option.bind_eq_some_iff, Option.pure_def] at h
      obtain ⟨result, hResult, rest, hRest, hEq⟩ := h
      cases hEq
      exact .cons hResult (ih hRest)

theorem some_mapM {items : List α} {step : α → Option β} {results : List β}
    (h : List.Forall₂ (fun item result => step item = some result) items results) : items.mapM step = some results := by
  induction h with
  | nil => rfl
  | cons hItem _ ih => rw [List.mapM_cons, hItem, ih]; rfl

theorem toOption_some {ε α : Type} {result : Except ε α} {value : α} :
    result.toOption = some value ↔ result = .ok value := by
  cases result with
  | error refusal => simp [Except.toOption]
  | ok found => simp [Except.toOption]

end Guarded
