import Mathlib.Logic.Basic

/-! Programs that can be interrupted. Every way out of a program leaves its
effects in place, so a specification asks for an invariant on each of them and
for a condition on the value of the completed runs only. -/
namespace Interrupted

variable {ε σ α β : Type}

/-- From a state with the invariant and the first condition, the program keeps
the invariant on every way out, and its completed runs end as the second
condition says. -/
def Holds (inv : σ → Prop) (before : σ → Prop) (program : EStateM ε σ α) (after : α → σ → Prop) : Prop :=
  ∀ s, inv s → before s → match program.run s with
    | .ok value s' => inv s' ∧ after value s'
    | .error _ s' => inv s'

variable {inv : σ → Prop} {before before' : σ → Prop} {after after' : α → σ → Prop}

theorem holds_pure {value : α} (h : ∀ s, before s → after value s) : Holds inv before (pure value : EStateM ε σ α) after :=
  fun s hInv hBefore => ⟨hInv, h s hBefore⟩

theorem holds_throw (e : ε) : Holds inv before (throw e : EStateM ε σ α) after := fun _ hInv _ => hInv

theorem holds_get : Holds inv before (get : EStateM ε σ σ) (fun value s => value = s ∧ before s) :=
  fun _ hInv hBefore => ⟨hInv, rfl, hBefore⟩

theorem holds_set {next : σ} {after : PUnit → σ → Prop} (h : ∀ s, inv s → before s → inv next ∧ after ⟨⟩ next) :
    Holds inv before (set next : EStateM ε σ PUnit) after := fun s hInv hBefore => h s hInv hBefore

/-- A change of the state that keeps the invariant. -/
theorem holds_modify {f : σ → σ} {after : PUnit → σ → Prop} (hInv : ∀ s, inv s → before s → inv (f s))
    (hAfter : ∀ s, inv s → before s → after ⟨⟩ (f s)) : Holds inv before (modify f : EStateM ε σ PUnit) after :=
  fun s hState hBefore => ⟨hInv s hState hBefore, hAfter s hState hBefore⟩

theorem Holds.bind {first : EStateM ε σ α} {next : α → EStateM ε σ β} {last : β → σ → Prop}
    (hFirst : Holds inv before first after) (hNext : ∀ value, Holds inv (after value) (next value) last) :
    Holds inv before (first >>= next) last := by
  intro s hInv hBefore
  have hRun := hFirst s hInv hBefore
  simp only [EStateM.run, Bind.bind, EStateM.bind] at hRun ⊢
  cases hValue : first s with
  | ok value s' =>
      simp only [hValue] at hRun ⊢
      exact hNext value s' hRun.1 hRun.2
  | error e s' =>
      simp only [hValue] at hRun ⊢
      exact hRun

theorem Holds.map {first : EStateM ε σ α} {f : α → β} {last : β → σ → Prop} (h : Holds inv before first after)
    (hLast : ∀ value s, after value s → last (f value) s) : Holds inv before (f <$> first) last := by
  intro s hInv hBefore
  have hRun := h s hInv hBefore
  simp only [EStateM.run, Functor.map, EStateM.map] at hRun ⊢
  cases hValue : first s with
  | ok value s' =>
      simp only [hValue] at hRun ⊢
      exact ⟨hRun.1, hLast value s' hRun.2⟩
  | error e s' =>
      simp only [hValue] at hRun ⊢
      exact hRun

theorem Holds.weaken {program : EStateM ε σ α} (h : Holds inv before program after) (hBefore : ∀ s, before' s → before s)
    (hAfter : ∀ value s, after value s → after' value s) : Holds inv before' program after' := by
  intro s hInv hState
  have hRun := h s hInv (hBefore s hState)
  cases hValue : program.run s with
  | ok value s' =>
      simp only [hValue] at hRun ⊢
      exact ⟨hRun.1, hAfter value s' hRun.2⟩
  | error e s' =>
      simp only [hValue] at hRun ⊢
      exact hRun

theorem Holds.post {program : EStateM ε σ α} (h : Holds inv before program after)
    (hAfter : ∀ value s, after value s → after' value s) : Holds inv before program after' :=
  h.weaken (fun _ hBefore => hBefore) hAfter

/-- A condition that does not depend on the state is a hypothesis. -/
theorem holds_of_fact {program : EStateM ε σ α} {fact : Prop} (h : fact → Holds inv before program after) :
    Holds inv (fun s => before s ∧ fact) program after := fun s hInv hState => h hState.2 s hInv hState.1

/-- What the invariant tells of every state that the program starts in. -/
theorem Holds.given {program : EStateM ε σ α} {fact : Prop} (hFact : ∀ s, inv s → before s → fact)
    (h : fact → Holds inv before program after) : Holds inv before program after :=
  fun s hInv hBefore => h (hFact s hInv hBefore) s hInv hBefore

theorem holds_of_exists {ι : Type} {program : EStateM ε σ α} {condition : ι → σ → Prop}
    (h : ∀ i, Holds inv (condition i) program after) : Holds inv (fun s => ∃ i, condition i s) program after :=
  fun s hInv hSome => hSome.elim fun i hState => h i s hInv hState

/-- Go on with what a first program established, state by state and once for all. -/
theorem Holds.bind_fact {first : EStateM ε σ α} {next : α → EStateM ε σ β} {last : β → σ → Prop} {fact : α → Prop}
    {condition : σ → Prop} (hFirst : Holds inv before first fun value s => condition s ∧ fact value)
    (hNext : ∀ value, fact value → Holds inv condition (next value) last) : Holds inv before (first >>= next) last :=
  hFirst.bind fun value => holds_of_fact (hNext value)

theorem Holds.bind_exists {ι : Type} {first : EStateM ε σ α} {next : α → EStateM ε σ β} {last : β → σ → Prop}
    {fact : α → ι → Prop} {condition : ι → σ → Prop}
    (hFirst : Holds inv before first fun value s => ∃ i, condition i s ∧ fact value i)
    (hNext : ∀ value i, fact value i → Holds inv (condition i) (next value) last) :
    Holds inv before (first >>= next) last :=
  hFirst.bind fun value => holds_of_exists fun i => holds_of_fact (hNext value i)

theorem Holds.ite {condition : Prop} [Decidable condition] {first other : EStateM ε σ α}
    (hFirst : condition → Holds inv before first after) (hOther : ¬ condition → Holds inv before other after) :
    Holds inv before (if condition then first else other) after := by
  split
  · exact hFirst ‹_›
  · exact hOther ‹_›

/-- A handler goes on from the state of the exception. -/
theorem Holds.tryCatch {program : EStateM ε σ α} {handler : ε → EStateM ε σ α} (h : Holds inv before program after)
    (hHandler : ∀ e, Holds inv (fun _ => True) (handler e) after) : Holds inv before (tryCatch program handler) after := by
  intro s hInv hBefore
  have hRun := h s hInv hBefore
  simp only [EStateM.run, MonadExcept.tryCatch, tryCatchThe, MonadExceptOf.tryCatch] at hRun ⊢
  delta EStateM.tryCatch
  cases hValue : program s with
  | ok value s' =>
      simp only [hValue] at hRun ⊢
      exact hRun
  | error e s' =>
      simp only [hValue] at hRun ⊢
      exact hHandler e s' hRun trivial

/-- An invariant of a program is a condition before and after it. -/
theorem Holds.relax {program : EStateM ε σ α} (h : Holds inv (fun _ => True) program fun _ _ => True) :
    Holds (fun _ => True) inv program fun _ => inv := by
  intro s _ hInv
  have hRun := h s hInv trivial
  cases hValue : program.run s with
  | ok value s' =>
      simp only [hValue] at hRun ⊢
      exact ⟨trivial, hRun.1⟩
  | error e s' => trivial

/-! Programs that end with a value. -/

section Completed

/-- From the first state, the program ends with the value in the second state. -/
def Completes (program : EStateM ε σ α) (s : σ) (value : α) (s' : σ) : Prop := program.run s = .ok value s'

variable {s s' : σ}

@[simp] theorem completes_pure {value found : α} :
    Completes (pure value : EStateM ε σ α) s found s' ↔ value = found ∧ s = s' := by
  constructor
  · rintro ⟨⟩
    exact ⟨rfl, rfl⟩
  · rintro ⟨rfl, rfl⟩
    rfl

@[simp] theorem completes_throw {e : ε} {value : α} : ¬ Completes (throw e : EStateM ε σ α) s value s' := by
  rintro ⟨⟩

@[simp] theorem completes_get {found : σ} : Completes (get : EStateM ε σ σ) s found s' ↔ s = found ∧ s = s' := by
  constructor
  · rintro ⟨⟩
    exact ⟨rfl, rfl⟩
  · rintro ⟨rfl, rfl⟩
    rfl

@[simp] theorem completes_set {next : σ} {value : PUnit} : Completes (set next : EStateM ε σ PUnit) s value s' ↔ next = s' := by
  constructor
  · rintro ⟨⟩
    rfl
  · rintro rfl
    rfl

@[simp] theorem completes_modify {f : σ → σ} {value : PUnit} :
    Completes (modify f : EStateM ε σ PUnit) s value s' ↔ f s = s' := by
  constructor
  · rintro ⟨⟩
    rfl
  · rintro rfl
    rfl

@[simp] theorem completes_bind {first : EStateM ε σ α} {next : α → EStateM ε σ β} {last : β} :
    Completes (first >>= next) s last s' ↔ ∃ value middle, Completes first s value middle ∧ Completes (next value) middle last s' := by
  simp only [Completes, EStateM.run, Bind.bind, EStateM.bind]
  cases first s with
  | ok value middle =>
      constructor
      · intro h
        exact ⟨value, middle, rfl, h⟩
      · rintro ⟨_, _, ⟨⟩, h⟩
        exact h
  | error e middle =>
      constructor
      · rintro ⟨⟩
      · rintro ⟨_, _, ⟨⟩, -⟩

@[simp] theorem completes_ite {condition : Prop} [Decidable condition] {first other : EStateM ε σ α} {value : α} :
    Completes (if condition then first else other) s value s' ↔
      condition ∧ Completes first s value s' ∨ ¬ condition ∧ Completes other s value s' := by
  split <;> simp [*]

/-- From the first state, the program ends with the exception in the second state. -/
def Raises (program : EStateM ε σ α) (s : σ) (e : ε) (s' : σ) : Prop := program.run s = .error e s'

variable {e : ε}

@[simp] theorem raises_pure {value : α} : ¬ Raises (pure value : EStateM ε σ α) s e s' := by
  rintro ⟨⟩

@[simp] theorem raises_throw {raised : ε} : Raises (throw raised : EStateM ε σ α) s e s' ↔ raised = e ∧ s = s' := by
  constructor
  · rintro ⟨⟩
    exact ⟨rfl, rfl⟩
  · rintro ⟨rfl, rfl⟩
    rfl

@[simp] theorem raises_get : ¬ Raises (get : EStateM ε σ σ) s e s' := by
  rintro ⟨⟩

@[simp] theorem raises_set {next : σ} : ¬ Raises (set next : EStateM ε σ PUnit) s e s' := by
  rintro ⟨⟩

@[simp] theorem raises_modify {f : σ → σ} : ¬ Raises (modify f : EStateM ε σ PUnit) s e s' := by
  rintro ⟨⟩

@[simp] theorem raises_bind {first : EStateM ε σ α} {next : α → EStateM ε σ β} :
    Raises (first >>= next) s e s' ↔
      Raises first s e s' ∨ ∃ value middle, Completes first s value middle ∧ Raises (next value) middle e s' := by
  simp only [Raises, Completes, EStateM.run, Bind.bind, EStateM.bind]
  cases first s with
  | ok value middle =>
      constructor
      · intro h
        exact .inr ⟨value, middle, rfl, h⟩
      · rintro (⟨⟨⟩⟩ | ⟨_, _, ⟨⟩, h⟩)
        exact h
  | error raised middle =>
      constructor
      · rintro ⟨⟩
        exact .inl rfl
      · rintro (⟨⟨⟩⟩ | ⟨_, _, ⟨⟩, -⟩)
        rfl

@[simp] theorem raises_ite {condition : Prop} [Decidable condition] {first other : EStateM ε σ α} :
    Raises (if condition then first else other) s e s' ↔
      condition ∧ Raises first s e s' ∨ ¬ condition ∧ Raises other s e s' := by
  split <;> simp [*]

/-- A handler starts where the exception was raised. -/
theorem completes_tryCatch {program : EStateM ε σ α} {handler : ε → EStateM ε σ α} {value : α} :
    Completes (tryCatch program handler) s value s' ↔ Completes program s value s' ∨
      ∃ raised middle, Raises program s raised middle ∧ Completes (handler raised) middle value s' := by
  simp only [Completes, Raises, EStateM.run, MonadExcept.tryCatch, tryCatchThe, MonadExceptOf.tryCatch]
  delta EStateM.tryCatch
  cases hRun : program s with
  | ok found middle => simp
  | error raised middle =>
      simp only [reduceCtorEq, EStateM.Result.error.injEq, false_or]
      constructor
      · intro h
        exact ⟨raised, middle, ⟨rfl, rfl⟩, h⟩
      · rintro ⟨_, _, ⟨rfl, rfl⟩, h⟩
        exact h

theorem raises_tryCatch {program : EStateM ε σ α} {handler : ε → EStateM ε σ α} :
    Raises (tryCatch program handler) s e s' ↔ ∃ raised middle, Raises program s raised middle ∧ Raises (handler raised) middle e s' := by
  simp only [Raises, EStateM.run, MonadExcept.tryCatch, tryCatchThe, MonadExceptOf.tryCatch]
  delta EStateM.tryCatch
  cases hRun : program s with
  | ok found middle => simp
  | error raised middle =>
      simp only [EStateM.Result.error.injEq]
      constructor
      · intro h
        exact ⟨raised, middle, ⟨rfl, rfl⟩, h⟩
      · rintro ⟨_, _, ⟨rfl, rfl⟩, h⟩
        exact h

end Completed

end Interrupted
