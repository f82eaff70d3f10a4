import Mathlib.Logic.Basic

/-! Programs over a state that may raise. A raise keeps the state it happened
in, so a handler sees every effect of the interrupted program; the rules say how
the two ways of ending of a program come from those of its parts. -/
namespace Raising

variable {σ α β : Type}

/-- A program over a state that ends with a value or raises. -/
abbrev Program (σ α : Type) := EStateM Unit σ α

/-- The program started here ends with a value and a state as the first
condition says, or raises in a state as the second one says. -/
def Ends (program : Program σ α) (s : σ) (returns : α → σ → Prop) (raises : σ → Prop) : Prop :=
  match program.run s with
  | .ok value s' => returns value s'
  | .error _ s' => raises s'

variable {s : σ} {returns : β → σ → Prop} {raises : σ → Prop}

@[simp] theorem ends_pure (value : β) : Ends (pure value : Program σ β) s returns raises ↔ returns value s := Iff.rfl

@[simp] theorem ends_throw : Ends (throw () : Program σ β) s returns raises ↔ raises s := Iff.rfl

@[simp] theorem ends_get {returns : σ → σ → Prop} : Ends (get : Program σ σ) s returns raises ↔ returns s s := Iff.rfl

@[simp] theorem ends_set (s' : σ) {returns : PUnit → σ → Prop} :
    Ends (set s' : Program σ PUnit) s returns raises ↔ returns ⟨⟩ s' := Iff.rfl

@[simp] theorem ends_modify (f : σ → σ) {returns : PUnit → σ → Prop} :
    Ends (modify f : Program σ PUnit) s returns raises ↔ returns ⟨⟩ (f s) := Iff.rfl

@[simp] theorem ends_bind (first : Program σ α) (next : α → Program σ β) :
    Ends (first >>= next) s returns raises ↔
      Ends first s (fun value s' => Ends (next value) s' returns raises) raises := by
  unfold Ends
  simp only [EStateM.run, bind, EStateM.bind]
  cases first s with
  | ok value s' => exact Iff.rfl
  | error _ s' => exact Iff.rfl

@[simp] theorem ends_tryCatch (program : Program σ β) (handler : Unit → Program σ β) :
    Ends (tryCatch program handler) s returns raises ↔
      Ends program s returns (fun s' => Ends (handler ()) s' returns raises) := by
  unfold Ends
  simp only [EStateM.run, tryCatch, tryCatchThe, MonadExceptOf.tryCatch]
  delta EStateM.tryCatch
  cases program s with
  | ok value s' => exact Iff.rfl
  | error _ s' => exact Iff.rfl

@[simp] theorem ends_ite (condition : Prop) [Decidable condition] (first other : Program σ β) :
    Ends (if condition then first else other) s returns raises ↔
      if condition then Ends first s returns raises else Ends other s returns raises := by
  split <;> exact Iff.rfl

/-- Weaker conditions hold of the same program. -/
theorem Ends.mono {program : Program σ β} {returns' : β → σ → Prop} {raises' : σ → Prop}
    (h : Ends program s returns raises) (hReturns : ∀ value s', returns value s' → returns' value s')
    (hRaises : ∀ s', raises s' → raises' s') : Ends program s returns' raises' := by
  unfold Ends at h ⊢
  cases hRun : program.run s with
  | ok value s' =>
      rw [hRun] at h
      exact hReturns value s' h
  | error _ s' =>
      rw [hRun] at h
      exact hRaises s' h

end Raising
