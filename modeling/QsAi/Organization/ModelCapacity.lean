import Mathlib.Algebra.BigOperators.Group.List.Basic
import Mathlib.Algebra.Order.BigOperators.Group.List
import Mathlib.Algebra.Ring.Int.Defs
import QsAi.Foundation.Guarded
import QsAi.Foundation.Keyed

/-! Capacity of the model providers. One event loop counts the calls that hold a
token; evaluations leave some room of each provider to generations, which wait
for it when there is none. -/
namespace QsAi

open Guarded Keyed

structure ProviderCapacity where
  total : Nat
  generationReserved : Nat
  valid : 1 ≤ total ∧ total ≤ 32 ∧ generationReserved < total

/-- What a capacity is made with. -/
structure CapacityConfig where
  providers : List (String × ProviderCapacity)
  limit : Nat
  distinct : UniqueOn Prod.fst providers
  bounded : 1 ≤ limit ∧ limit ≤ 32

structure CapacityToken where
  provider : String
  evaluation : Bool
  released : Bool
deriving DecidableEq

/-- The token counts at the provider. -/
def CapacityToken.holds (token : CapacityToken) (provider : String) : Bool :=
  token.provider == provider && !token.released

def CapacityToken.evaluates (token : CapacityToken) (provider : String) : Bool :=
  token.holds provider && token.evaluation

/-- A generation that waits; once it is woken the loop runs it again. -/
structure GenerationWaiter where
  provider : String
  woken : Bool
deriving DecidableEq

structure ModelCapacity where
  active : String → Int := fun _ => 0
  evaluations : String → Int := fun _ => 0
  changed : Bool := false
  tokens : List CapacityToken := []
  waiters : List GenerationWaiter := []

namespace ModelCapacity

/-- One more, or one less, at a provider. -/
def shift (counts : String → Int) (provider : String) (amount : Int) : String → Int :=
  fun other => if other = provider then counts other + amount else counts other

/-- `int(evaluation)`. -/
def one (evaluation : Bool) : Int := if evaluation then 1 else 0

section Loop

variable (config : CapacityConfig)

/-- `sum(self._evaluations.values())`. -/
def allEvaluations (capacity : ModelCapacity) : Int :=
  (config.providers.map fun entry => capacity.evaluations entry.1).sum

/-- `try_acquire`, which has no token to give when there is no room. -/
def tryAcquire (capacity : ModelCapacity) (provider : String) (evaluation : Bool) :
    Except Unit (Option CapacityToken × ModelCapacity) := do
  let (_, limits) ← demand (lookup Prod.fst config.providers provider) ()
  if (limits.total : Int) ≤ capacity.active provider then pure (none, capacity)
  else if evaluation = true ∧ ((config.limit : Int) ≤ capacity.allEvaluations config ∨
      (limits.total : Int) - limits.generationReserved ≤ capacity.evaluations provider) then pure (none, capacity)
  else
    let token : CapacityToken := ⟨provider, evaluation, false⟩
    pure (some token,
      { capacity with
        active := shift capacity.active provider 1
        evaluations := shift capacity.evaluations provider (one evaluation)
        tokens := capacity.tokens ++ [token] })

/-- One attempt of the loop of `acquire_generation`. -/
def attempt (capacity : ModelCapacity) (provider : String) : Except Unit (Option CapacityToken × ModelCapacity) :=
  tryAcquire config { capacity with changed := false } provider false

/-- The release of a token; a repeated one does nothing. Setting the event wakes
every waiter. -/
def release (capacity : ModelCapacity) (index : Nat) : ModelCapacity :=
  match capacity.tokens[index]? with
  | none => capacity
  | some token =>
      if token.released then capacity
      else
        { active := shift capacity.active token.provider (-1)
          evaluations := shift capacity.evaluations token.provider (-one token.evaluation)
          changed := true
          tokens := capacity.tokens.set index { token with released := true }
          waiters := capacity.waiters.map fun waiter => { waiter with woken := true } }

/-- What happens next in the event loop. A token is released by a call or at the
end of its block, also by an exception; a waiter can be cancelled. -/
inductive Event
  | tryAcquire (provider : String) (evaluation : Bool)
  | acquireGeneration (provider : String)
  | resume (index : Nat)
  | cancel (index : Nat)
  | release (index : Nat)

/-- The state after an event; events that are not possible change nothing. -/
def step (capacity : ModelCapacity) : Event → ModelCapacity
  | .tryAcquire provider evaluation =>
      match tryAcquire config capacity provider evaluation with
      | .ok (_, next) => next
      | .error _ => capacity
  | .acquireGeneration provider =>
      match attempt config capacity provider with
      | .ok (some _, next) => next
      | .ok (none, next) => { next with waiters := next.waiters ++ [⟨provider, false⟩] }
      | .error _ => { capacity with changed := false }
  | .resume index =>
      match capacity.waiters[index]? with
      | some ⟨provider, true⟩ =>
          match attempt config capacity provider with
          | .ok (some _, next) => { next with waiters := next.waiters.eraseIdx index }
          | .ok (none, next) => { next with waiters := next.waiters.set index ⟨provider, false⟩ }
          | .error _ => { capacity with changed := false, waiters := capacity.waiters.eraseIdx index }
      | _ => capacity
  | .cancel index => { capacity with waiters := capacity.waiters.eraseIdx index }
  | .release index => capacity.release index

def run (events : List Event) : ModelCapacity := events.foldl (step config) {}

end Loop

variable {config : CapacityConfig} {capacity next : ModelCapacity} {provider : String}

/-! What the counters count. -/

/-- The unreleased tokens of a provider. -/
def held (capacity : ModelCapacity) (provider : String) : Nat := capacity.tokens.countP (·.holds provider)

def heldEvaluations (capacity : ModelCapacity) (provider : String) : Nat := capacity.tokens.countP (·.evaluates provider)

/-- The counters are exact, they keep the limits, and who waits has no room. -/
structure Exact (config : CapacityConfig) (capacity : ModelCapacity) : Prop where
  active : ∀ provider, capacity.active provider = capacity.held provider
  evaluations : ∀ provider, capacity.evaluations provider = capacity.heldEvaluations provider
  room : ∀ entry ∈ config.providers, capacity.active entry.1 ≤ entry.2.total ∧
    capacity.evaluations entry.1 ≤ (entry.2.total : Int) - entry.2.generationReserved
  overall : capacity.allEvaluations config ≤ config.limit
  waiting : ∀ waiter ∈ capacity.waiters, waiter.woken = false →
    ∃ limits, (waiter.provider, limits) ∈ config.providers ∧ (limits.total : Int) ≤ capacity.active waiter.provider

theorem Exact.start (config : CapacityConfig) : Exact config {} where
  active _ := rfl
  evaluations _ := rfl
  room entry _ := by
    have hReserved := entry.2.valid.2.2
    constructor
    · exact Int.natCast_nonneg _
    · change (0 : Int) ≤ _
      omega
  overall := by
    have hZero : (config.providers.map fun _ => (0 : Int)).sum = 0 := by simp
    change (config.providers.map fun _ => (0 : Int)).sum ≤ _
    rw [hZero]
    exact Int.natCast_nonneg _
  waiting _ hMem := absurd hMem List.not_mem_nil

theorem shift_self (counts : String → Int) (provider : String) (amount : Int) :
    shift counts provider amount provider = counts provider + amount := if_pos rfl

theorem shift_other (counts : String → Int) {provider other : String} (amount : Int) (h : other ≠ provider) :
    shift counts provider amount other = counts other := if_neg h

/-- A shift at a name that is not there does not change the sum. -/
theorem sum_shift_absent {entries : List (String × ProviderCapacity)} (counts : String → Int) (amount : Int)
    (h : provider ∉ entries.map Prod.fst) :
    (entries.map fun entry => shift counts provider amount entry.1).sum = (entries.map fun entry => counts entry.1).sum := by
  congr 1
  refine List.map_congr_left fun entry hMem => shift_other counts amount ?_
  rintro rfl
  exact h (List.mem_map_of_mem hMem)

/-- The sum over distinct names takes a shift at one of them once. -/
theorem sum_shift {entries : List (String × ProviderCapacity)} {limits : ProviderCapacity} (counts : String → Int)
    (amount : Int) (hUnique : UniqueOn Prod.fst entries) (hMem : (provider, limits) ∈ entries) :
    (entries.map fun entry => shift counts provider amount entry.1).sum =
      (entries.map fun entry => counts entry.1).sum + amount := by
  induction entries with
  | nil => cases hMem
  | cons entry entries ih =>
      obtain ⟨hFirst, hRest⟩ := uniqueOn_cons.mp hUnique
      rw [List.map_cons, List.map_cons, List.sum_cons, List.sum_cons]
      rcases List.mem_cons.mp hMem with rfl | hLater
      · rw [sum_shift_absent counts amount hFirst]
        simp only [shift_self]
        omega
      · have hOther : entry.1 ≠ provider := by
          intro hSame
          exact hFirst (List.mem_map.mpr ⟨_, hLater, hSame.symm⟩)
        rw [ih hRest hLater, shift_other counts amount hOther]
        omega

/-! What an attempt does. -/

/-- A token was given: there was room, and the counters count it. -/
structure Granted (config : CapacityConfig) (capacity : ModelCapacity) (provider : String) (evaluation : Bool)
    (next : ModelCapacity) : Prop where
  room : ∃ limits, (provider, limits) ∈ config.providers ∧ capacity.active provider < limits.total ∧
    (evaluation = true → capacity.allEvaluations config < config.limit ∧
      capacity.evaluations provider < (limits.total : Int) - limits.generationReserved)
  active : next.active = shift capacity.active provider 1
  evaluations : next.evaluations = shift capacity.evaluations provider (one evaluation)
  tokens : next.tokens = capacity.tokens ++ [⟨provider, evaluation, false⟩]
  waiters : next.waiters = capacity.waiters

theorem tryAcquire_cases {evaluation : Bool} {token : Option CapacityToken}
    (h : tryAcquire config capacity provider evaluation = .ok (token, next)) :
    (token = none ∧ next = capacity ∧ (evaluation = false → ∃ limits, (provider, limits) ∈ config.providers ∧
      (limits.total : Int) ≤ capacity.active provider)) ∨
    (token.isSome = true ∧ Granted config capacity provider evaluation next) := by
  simp only [tryAcquire, bind_ok, demand_ok] at h
  obtain ⟨⟨name, limits⟩, hFound, h⟩ := h
  obtain ⟨hMem, hName⟩ := lookup_some hFound
  have hName : name = provider := hName
  subst hName
  simp only at h
  split at h
  · rename_i hFull
    cases h
    exact .inl ⟨rfl, rfl, fun _ => ⟨limits, hMem, hFull⟩⟩
  split at h
  · rename_i hNoRoom
    cases h
    exact .inl ⟨rfl, rfl, fun hGeneration => absurd hNoRoom.1 (by simp [hGeneration])⟩
  · rename_i hFree hRoom
    cases h
    refine .inr ⟨rfl, ⟨⟨limits, hMem, by omega, fun hEvaluation => ?_⟩, rfl, rfl, rfl, rfl⟩⟩
    have hBoth := not_or.mp fun hEither => hRoom ⟨hEvaluation, hEither⟩
    exact ⟨by omega, by omega⟩

theorem one_nonneg (evaluation : Bool) : 0 ≤ one evaluation := by cases evaluation <;> decide

/-- Counting one more token. -/
theorem count_snoc (tokens : List CapacityToken) (token : CapacityToken) (test : CapacityToken → Bool) :
    ((tokens ++ [token]).countP test : Int) = tokens.countP test + one (test token) := by
  rw [List.countP_append, List.countP_singleton]
  cases test token <;> simp [one]

theorem Exact.granted (h : Exact config capacity) {evaluation : Bool} (hGranted : Granted config capacity provider evaluation next)
    : Exact config next := by
  obtain ⟨limits, hMem, hFree, hEvaluation⟩ := hGranted.room
  have hOnly : ∀ entry ∈ config.providers, entry.1 = provider → entry = (provider, limits) := fun entry hEntry hName =>
    config.distinct.eq_of_key hEntry hMem hName
  refine ⟨fun other => ?_, fun other => ?_, fun entry hEntry => ?_, ?_, fun waiter hWaiter hAsleep => ?_⟩
  · rw [hGranted.active, held, hGranted.tokens, count_snoc, ← held, ← h.active]
    by_cases hSame : other = provider
    · subst hSame
      simp [shift_self, CapacityToken.holds, one]
    · simp [shift_other _ _ hSame, CapacityToken.holds, one, Ne.symm hSame]
  · rw [hGranted.evaluations, heldEvaluations, hGranted.tokens, count_snoc, ← heldEvaluations, ← h.evaluations]
    by_cases hSame : other = provider
    · subst hSame
      simp [shift_self, CapacityToken.evaluates, CapacityToken.holds]
    · simp [shift_other _ _ hSame, CapacityToken.evaluates, CapacityToken.holds, one, Ne.symm hSame]
  · rw [hGranted.active, hGranted.evaluations]
    obtain ⟨hActive, hEvaluations⟩ := h.room entry hEntry
    by_cases hSame : entry.1 = provider
    · obtain rfl := hOnly entry hEntry hSame
      simp only [shift_self] at hActive hEvaluations ⊢
      refine ⟨by omega, ?_⟩
      cases evaluation with
      | false => simpa [one] using hEvaluations
      | true =>
          have hRoom := (hEvaluation rfl).2
          simp only [one, if_true]
          omega
    · rw [shift_other _ _ hSame, shift_other _ _ hSame]
      exact ⟨hActive, hEvaluations⟩
  · rw [allEvaluations, hGranted.evaluations, sum_shift _ _ config.distinct hMem, ← allEvaluations]
    have hOverall := h.overall
    cases evaluation with
    | false => simpa [one] using hOverall
    | true =>
        have hRoom := (hEvaluation rfl).1
        simp only [one, if_true]
        omega
  · rw [hGranted.waiters] at hWaiter
    obtain ⟨full, hFullMem, hFull⟩ := h.waiting waiter hWaiter hAsleep
    refine ⟨full, hFullMem, ?_⟩
    rw [hGranted.active, shift]
    split <;> omega

/-- Counting after a token was marked as released. -/
theorem count_release {tokens : List CapacityToken} {index : Nat} {token : CapacityToken}
    (hToken : tokens[index]? = some token) (test : CapacityToken → Bool)
    (hReleased : test { token with released := true } = false) :
    ((tokens.set index { token with released := true }).countP test : Int) = tokens.countP test - one (test token) := by
  obtain ⟨hIndex, hAt⟩ := List.getElem?_eq_some_iff.mp hToken
  rw [List.countP_set hIndex, hAt, hReleased]
  cases hTest : test token with
  | false => simp [one]
  | true =>
      have hPositive : 0 < tokens.countP test :=
        List.countP_pos_iff.mpr ⟨token, List.mem_of_getElem? hToken, hTest⟩
      simp only [one, if_true, Bool.false_eq_true, if_false]
      omega

theorem Exact.release (h : Exact config capacity) (index : Nat) : Exact config (capacity.release index) := by
  unfold ModelCapacity.release
  split
  · exact h
  rename_i token hToken
  split
  · exact h
  rename_i hOpen
  have hLess : ∀ counts : String → Int, ∀ amount, 0 ≤ amount → ∀ other, shift counts token.provider (-amount) other ≤ counts other := by
    intro counts amount hAmount other
    unfold shift
    split <;> omega
  refine ⟨fun other => ?_, fun other => ?_, fun entry hEntry => ?_, ?_, fun waiter hWaiter hAsleep => ?_⟩
  · simp only [held]
    rw [count_release hToken _ (by simp [CapacityToken.holds]), ← held, ← h.active]
    by_cases hSame : other = token.provider
    · subst hSame
      simp [shift_self, CapacityToken.holds, hOpen, one]
      omega
    · simp [shift_other _ _ hSame, CapacityToken.holds, one, Ne.symm hSame]
  · simp only [heldEvaluations]
    rw [count_release hToken _ (by simp [CapacityToken.evaluates, CapacityToken.holds]), ← heldEvaluations, ← h.evaluations]
    by_cases hSame : other = token.provider
    · subst hSame
      simp [shift_self, CapacityToken.evaluates, CapacityToken.holds, hOpen]
      omega
    · simp [shift_other _ _ hSame, CapacityToken.evaluates, CapacityToken.holds, one, Ne.symm hSame]
  · obtain ⟨hActive, hEvaluations⟩ := h.room entry hEntry
    exact ⟨(hLess _ 1 (by decide) _).trans hActive, (hLess _ _ (one_nonneg _) _).trans hEvaluations⟩
  · refine le_trans ?_ h.overall
    unfold allEvaluations
    exact List.sum_le_sum fun entry _ => hLess _ _ (one_nonneg _) _
  · obtain ⟨earlier, _, rfl⟩ := List.mem_map.mp hWaiter
    cases hAsleep

/-- Waiters that leave, or that go to sleep where there is no room, keep the
counters as they are. -/
theorem Exact.waiters (h : Exact config capacity) {changed : Bool} {waiters : List GenerationWaiter}
    (hWaiters : ∀ waiter ∈ waiters, waiter ∈ capacity.waiters ∨ (waiter.woken = false →
      ∃ limits, (waiter.provider, limits) ∈ config.providers ∧ (limits.total : Int) ≤ capacity.active waiter.provider)) :
    Exact config { capacity with changed, waiters } where
  active := h.active
  evaluations := h.evaluations
  room := h.room
  overall := h.overall
  waiting waiter hMem hAsleep := by
    rcases hWaiters waiter hMem with hOld | hFull
    · exact h.waiting waiter hOld hAsleep
    · exact hFull hAsleep

theorem Exact.dropped (h : Exact config capacity) (changed : Bool) (index : Nat) :
    Exact config { capacity with changed, waiters := capacity.waiters.eraseIdx index } :=
  h.waiters fun _ hMem => .inl (List.mem_of_mem_eraseIdx hMem)

/-- A round of the waiting loop gives a token, or finds the provider full. -/
theorem attempt_cases {token : Option CapacityToken} (h : attempt config capacity provider = .ok (token, next)) :
    (token = none ∧ next = { capacity with changed := false } ∧
      ∃ limits, (provider, limits) ∈ config.providers ∧ (limits.total : Int) ≤ capacity.active provider) ∨
    (token.isSome = true ∧ Granted config { capacity with changed := false } provider false next) := by
  rcases tryAcquire_cases h with ⟨hNone, hSame, hFull⟩ | hGranted
  · exact .inl ⟨hNone, hSame, hFull rfl⟩
  · exact .inr hGranted

/-- Every event keeps the counters exact. -/
theorem Exact.step (h : Exact config capacity) (event : Event) : Exact config (capacity.step config event) := by
  have hCleared : Exact config { capacity with changed := false } := h.waiters fun _ hMem => .inl hMem
  cases event with
  | tryAcquire provider evaluation =>
      simp only [ModelCapacity.step]
      split
      · rename_i token next hTry
        rcases tryAcquire_cases hTry with ⟨_, rfl, _⟩ | ⟨_, hGranted⟩
        · exact h
        · exact h.granted hGranted
      · exact h
  | acquireGeneration provider =>
      simp only [ModelCapacity.step]
      split
      · rename_i token next hAttempt
        rcases attempt_cases hAttempt with ⟨hNone, _⟩ | ⟨_, hGranted⟩
        · cases hNone
        · exact hCleared.granted hGranted
      · rename_i next hAttempt
        rcases attempt_cases hAttempt with ⟨_, rfl, hFull⟩ | ⟨hSome, _⟩
        · refine hCleared.waiters fun waiter hMem => ?_
          rcases List.mem_append.mp hMem with hOld | hNew
          · exact .inl hOld
          · obtain rfl := List.mem_singleton.mp hNew
            exact .inr fun _ => hFull
        · cases hSome
      · exact hCleared
  | resume index =>
      simp only [ModelCapacity.step]
      split
      · rename_i provider hWaiter
        split
        · rename_i token next hAttempt
          rcases attempt_cases hAttempt with ⟨hNone, _⟩ | ⟨_, hGranted⟩
          · cases hNone
          · exact (hCleared.granted hGranted).dropped _ index
        · rename_i next hAttempt
          rcases attempt_cases hAttempt with ⟨_, rfl, hFull⟩ | ⟨hSome, _⟩
          · refine hCleared.waiters fun waiter hMem => ?_
            rcases List.mem_or_eq_of_mem_set hMem with hOld | rfl
            · exact .inl hOld
            · exact .inr fun _ => hFull
          · cases hSome
        · exact h.dropped false index
      · exact h
  | cancel index => exact h.dropped capacity.changed index
  | release index => exact h.release index

theorem run_exact (config : CapacityConfig) (events : List Event) : Exact config (run config events) := by
  unfold run
  have hFold : ∀ capacity, Exact config capacity → Exact config (events.foldl (step config) capacity) := by
    induction events with
    | nil => exact fun _ h => h
    | cons event events ih => exact fun capacity h => ih _ (h.step event)
  exact hFold _ (Exact.start config)

end ModelCapacity

/-- The accounting of the providers, after any events in the loop. -/
theorem model_capacity_exact (config : CapacityConfig) (events : List ModelCapacity.Event) :
    let capacity := ModelCapacity.run config events
    (∀ provider, capacity.active provider =
        (capacity.tokens.filter fun token => token.provider = provider ∧ token.released = false).length ∧
      capacity.evaluations provider =
        (capacity.tokens.filter fun token => token.provider = provider ∧ token.released = false ∧
          token.evaluation = true).length) ∧
    (∀ provider limits, (provider, limits) ∈ config.providers →
      0 ≤ capacity.evaluations provider ∧ capacity.evaluations provider ≤ capacity.active provider ∧
      capacity.active provider ≤ limits.total ∧
      capacity.evaluations provider ≤ (limits.total : Int) - limits.generationReserved ∧
      (limits.generationReserved : Int) ≤ limits.total - capacity.evaluations provider) ∧
    (config.providers.map fun entry => capacity.evaluations entry.1).sum ≤ config.limit ∧
    ∀ waiter ∈ capacity.waiters, waiter.woken = false →
      ∃ limits, (waiter.provider, limits) ∈ config.providers ∧ capacity.active waiter.provider = limits.total := by
  intro capacity
  have hExact := ModelCapacity.run_exact config events
  have hFewer : ∀ provider, capacity.heldEvaluations provider ≤ capacity.held provider := by
    intro provider
    refine List.countP_mono_left fun token _ hEvaluates => ?_
    rw [CapacityToken.evaluates, Bool.and_eq_true] at hEvaluates
    exact hEvaluates.1
  refine ⟨fun provider => ⟨?_, ?_⟩, fun provider limits hMem => ?_, hExact.overall, fun waiter hMem hAsleep => ?_⟩
  · rw [hExact.active, ModelCapacity.held, List.countP_eq_length_filter]
    refine congrArg _ (congrArg List.length (List.filter_congr fun token _ => ?_))
    rw [CapacityToken.holds, Bool.eq_iff_iff]
    simp
  · rw [hExact.evaluations, ModelCapacity.heldEvaluations, List.countP_eq_length_filter]
    refine congrArg _ (congrArg List.length (List.filter_congr fun token _ => ?_))
    rw [CapacityToken.evaluates, CapacityToken.holds, Bool.eq_iff_iff]
    simp [and_assoc]
  · have hActive : capacity.active provider ≤ limits.total := (hExact.room _ hMem).1
    have hEvaluations : capacity.evaluations provider ≤ (limits.total : Int) - limits.generationReserved :=
      (hExact.room _ hMem).2
    have hLess := hFewer provider
    have hHeld := hExact.active provider
    have hCounted := hExact.evaluations provider
    refine ⟨?_, ?_, hActive, hEvaluations, by omega⟩
    · rw [hCounted]
      exact Int.natCast_nonneg _
    · rw [hCounted, hHeld]
      exact_mod_cast hLess
  · obtain ⟨limits, hLimits, hFull⟩ := hExact.waiting waiter hMem hAsleep
    exact ⟨limits, hLimits, le_antisymm (hExact.room _ hLimits).1 hFull⟩

end QsAi
