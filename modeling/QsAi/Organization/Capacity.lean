import QsAi.Organization.Admission
import QsAi.Run.ContractRecovery

/-! The capacity of an organization. Reservations hold for any order of the
transactions. The number of active Runs is bounded as long as no contract
recovery and no cancellation overtakes an admission. -/
namespace QsAi

open Guarded Keyed

namespace Organization

variable {deployment : Deployment} {org next : Organization} {runId : String} {store after : Store}

/-! The rows of an organization. -/

/-- What the tables of an organization agree on. -/
structure Sound (org : Organization) : Prop where
  keyed : UniqueOn Prod.fst org.runs
  coherent : ∀ entry ∈ org.runs, entry.2.Coherent
  reserved : ∀ entry ∈ org.runs, entry.2.Begun → ∃ r ∈ org.reservations, r.runId = entry.1
  once : UniqueOn (·.runId) org.reservations
  quotas : org.quotas.Sound

theorem run_ok (h : org.Sound) : org.run runId = .ok store ↔ (runId, store) ∈ org.runs := by
  rw [run, demand_ok]
  constructor
  · intro hRun
    obtain ⟨⟨found, row⟩, hFound, rfl⟩ := Option.map_eq_some_iff.mp hRun
    obtain ⟨hMem, hKey⟩ := lookup_some hFound
    rw [← hKey]
    exact hMem
  · intro hMem
    rw [h.keyed.lookup_iff.mpr ⟨hMem, rfl⟩]
    rfl

/-- Saving a Run changes its own row alone. -/
theorem run_save (h : org.Sound) (hRun : org.run runId = .ok store) (other : String) :
    (org.save runId after).run other = if other = runId then .ok after else org.run other := by
  have hMem := (run_ok h).mp hRun
  split
  · rename_i hSame
    have hFound : lookup Prod.fst org.runs (Prod.fst (runId, after)) = some (runId, store) :=
      h.keyed.lookup_iff.mpr ⟨hMem, rfl⟩
    rw [run, save, hSame, lookup_update_self hFound]
    rfl
  · rename_i hOther
    rw [run, save, lookup_update_other hOther]
    rfl

/-- A saved Run keeps the tables together when it has its reservation. -/
theorem Sound.saved (h : org.Sound) (hAfter : after.Coherent) (hRuns : next.runs = (org.save runId after).runs)
    (hKept : ∀ r ∈ org.reservations, r ∈ next.reservations) (hOnce : UniqueOn (·.runId) next.reservations)
    (hBegun : after.Begun → ∃ r ∈ next.reservations, r.runId = runId) (hQuotas : next.quotas.Sound) : next.Sound where
  keyed := hRuns ▸ h.keyed.update _
  coherent := by
    intro entry hEntry
    rw [hRuns] at hEntry
    rcases mem_update hEntry with rfl | hOld
    · exact hAfter
    · exact h.coherent entry hOld
  reserved := by
    intro entry hEntry hWorks
    rw [hRuns] at hEntry
    rcases mem_update hEntry with rfl | hOld
    · exact hBegun hWorks
    · obtain ⟨r, hr, hKey⟩ := h.reserved entry hOld hWorks
      exact ⟨r, hKept r hr, hKey⟩
  once := hOnce
  quotas := hQuotas

theorem Sound.save (h : org.Sound) (hAfter : after.Coherent)
    (hBegun : after.Begun → ∃ r ∈ org.reservations, r.runId = runId) : (org.save runId after).Sound :=
  h.saved hAfter rfl (fun _ hr => hr) h.once hBegun h.quotas

theorem Sound.create (h : org.Sound) {creation : Creation} (hNew : lookup Prod.fst org.runs runId = none) :
    Sound { org with runs := org.runs ++ [(runId, createRun creation)] } where
  keyed := by
    refine h.keyed.snoc fun hMem => ?_
    obtain ⟨entry, hEntry, hKey⟩ := List.mem_map.mp hMem
    exact lookup_eq_none.mp hNew entry hEntry hKey
  coherent := by
    intro entry hEntry
    rcases List.mem_append.mp hEntry with hOld | hNew
    · exact h.coherent entry hOld
    · rw [List.mem_singleton.mp hNew]
      exact Store.createRun_coherent creation
  reserved := by
    intro entry hEntry hWorks
    rcases List.mem_append.mp hEntry with hOld | hNew
    · exact h.reserved entry hOld hWorks
    · rw [List.mem_singleton.mp hNew] at hWorks
      rcases hWorks with hWorks | hWorks <;> cases hWorks
  once := h.once
  quotas := h.quotas

/-! What an admission does. -/

/-- A new reservation within the budget of its day. -/
structure Inserts (deployment : Deployment) (org next : Organization) (reservation : EvaluationReservation) : Prop where
  fresh : lookup (·.runId) org.reservations reservation.runId = none
  appended : next.reservations = org.reservations ++ [reservation]
  day : reservation.budgetDay = reservation.reservedAt.utcDay
  within : ∃ policy, org.evaluationPolicy deployment = .ok policy ∧
    next.used reservation.budgetDay ≤ policy.1.dailyProviderCalls

/-- The admission found a free slot, and the Run has its reservation. -/
structure Admits (deployment : Deployment) (org next : Organization) (opened : OpenAdmission) : Prop where
  free : ∃ policy, org.evaluationPolicy deployment = .ok policy ∧ opened.active < policy.1.maxActiveRuns
  reserved : ∃ r ∈ next.reservations, r.runId = opened.runId
  rows : next.runs = org.runs ∧ next.quotas = org.quotas
  reservation : next.reservations = org.reservations ∨
    ∃ reservation, reservation.runId = opened.runId ∧ Inserts deployment org next reservation

theorem admit_ok {opened : OpenAdmission} {actor : String} {time : DateTime}
    (hOk : org.admitRun deployment opened actor time = .ok next) : Admits deployment org next opened := by
  obtain ⟨⟨policy, snapshot⟩, hPolicy, hOk⟩ := (bind_ok _ _ _).mp hOk
  obtain ⟨hFree, hReserve⟩ := (require_bind_ok _ _ _ _).mp hOk
  have hFound : ∃ policy, org.evaluationPolicy deployment = .ok policy ∧ opened.active < policy.1.maxActiveRuns :=
    ⟨_, hPolicy, hFree⟩
  unfold reserve at hReserve
  split at hReserve
  · rename_i prior hPrior
    cases (pure_ok _ _).mp hReserve
    exact ⟨hFound, ⟨prior, lookup_some hPrior⟩, ⟨rfl, rfl⟩, .inl rfl⟩
  · rename_i hNone
    obtain ⟨reservation, hPlan, hNext⟩ := (bind_ok _ _ _).mp hReserve
    cases (pure_ok _ _).mp hNext
    obtain ⟨store, _, hPlan⟩ := (bind_ok _ _ _).mp hPlan
    obtain ⟨hWithin, hPure⟩ := (require_bind_ok _ _ _ _).mp hPlan
    have hReservation := (pure_ok _ _).mp hPure
    have hRun : reservation.runId = opened.runId := by rw [← hReservation]
    refine ⟨hFound, ⟨reservation, List.mem_append_right _ (List.mem_singleton_self _), hRun⟩, ⟨rfl, rfl⟩,
      .inr ⟨reservation, hRun, ⟨hRun ▸ hNone, rfl, ?_, _, hPolicy, ?_⟩⟩⟩
    · rw [← hReservation]
    · rw [← hReservation]
      simpa [used] using hWithin

theorem Inserts.once {reservation : EvaluationReservation} (hInserts : Inserts deployment org next reservation)
    (h : UniqueOn (·.runId) org.reservations) : UniqueOn (·.runId) next.reservations := by
  rw [hInserts.appended]
  refine h.snoc fun hMem => ?_
  obtain ⟨r, hr, hKey⟩ := List.mem_map.mp hMem
  exact lookup_eq_none.mp hInserts.fresh r hr hKey

theorem Admits.sound {opened : OpenAdmission} (hAdmits : Admits deployment (org.save opened.runId after) next opened)
    (h : org.Sound) (hAfter : after.Coherent) : next.Sound := by
  obtain ⟨_, hReserved, ⟨hRuns, hQuotas⟩, hReservation⟩ := hAdmits
  refine h.saved hAfter hRuns ?_ ?_ (fun _ => hReserved) (hQuotas ▸ h.quotas)
  · intro r hr
    rcases hReservation with hSame | ⟨_, _, hInserts⟩
    · exact hSame ▸ hr
    · rw [hInserts.appended]
      exact List.mem_append_left _ hr
  · rcases hReservation with hSame | ⟨_, _, hInserts⟩
    · exact hSame ▸ h.once
    · exact hInserts.once h.once

/-! What a step does. -/

inductive Moves (deployment : Deployment) (org : Organization) : Step → Organization → Prop
  | create {runId : String} {creation : Creation} (hNew : lookup Prod.fst org.runs runId = none) :
      Moves deployment org (.create runId creation) { org with runs := org.runs ++ [(runId, createRun creation)] }
  | work {runId : String} {op : Operation} {store after : Store} (hRun : org.run runId = .ok store)
      (hAdmitted : op.admitted = false) (hOp : store.perform op = .ok after) :
      Moves deployment org (.work runId op) (org.save runId after)
  | quotas {step : Step} {book : QuotaBook} (hBook : book.Sound) : Moves deployment org step { org with quotas := book }
  | lock {runId : String} (hNone : org.admission = none) :
      Moves deployment org (.lock runId) { org with admission := some ⟨runId, org.otherActive runId⟩ }
  | admission {step : Step} {opened : OpenAdmission} {store after : Store} {admitted : Organization}
      (hOpened : org.admission = some opened) (hRun : org.run opened.runId = .ok store) (hAfter : after.Coherent)
      (hAdmits : Admits deployment (org.save opened.runId after) admitted opened) :
      Moves deployment org step { admitted with admission := none }
  | settle {step : Step} {opened : OpenAdmission} {store after : Store} (hOpened : org.admission = some opened)
      (hRun : org.run opened.runId = .ok store) (hAfter : after.Coherent) (hRests : store.Rests after) :
      Moves deployment org step { org.save opened.runId after with admission := none }
  | abandon {step : Step} : Moves deployment org step { org with admission := none }

/-- Everything a committed step can do. -/
theorem step_moves (h : org.Sound) {step : Step} (hStep : org.step deployment step = .ok next) :
    Moves deployment org step next := by
  have hCoherent : ∀ {runId : String} {store after : Store} {op : Operation}, org.run runId = .ok store →
      store.perform op = .ok after → after.Coherent := by
    intro runId store after op hRun hOp
    have hStore := h.coherent _ ((run_ok h).mp hRun)
    exact ((Store.perform_changes hStore hOp).coherent hStore).1
  cases step with
  | create runId creation =>
      obtain ⟨hNew, hNext⟩ := (require_bind_ok _ _ _ _).mp hStep
      cases (pure_ok _ _).mp hNext
      exact .create hNew
  | work runId op =>
      obtain ⟨hAdmitted, hStep⟩ := (require_bind_ok _ _ _ _).mp hStep
      simp only [bind_ok, mapError_ok, pure_ok] at hStep
      obtain ⟨store, hRun, after, hOp, rfl⟩ := hStep
      exact .work hRun hAdmitted hOp
  | quotas operatorUserId commandId request time =>
      obtain ⟨_, hStep⟩ := (require_bind_ok _ _ _ _).mp hStep
      simp only [bind_ok, mapError_ok, pure_ok] at hStep
      obtain ⟨⟨answer, book⟩, hApply, rfl⟩ := hStep
      exact .quotas (h.quotas.apply hApply)
  | lock runId =>
      obtain ⟨hNone, hNext⟩ := (require_bind_ok _ _ _ _).mp hStep
      cases (pure_ok _ _).mp hNext
      exact .lock hNone
  | start expectedVersion actor reason time confirm =>
      simp only [Organization.step, Organization.start, bind_ok, demand_ok, require_ok, exists_const, mapError_ok,
        pure_ok] at hStep
      obtain ⟨opened, hOpened, started, ⟨_, store, hRun, _, after, hOp, hAdmit⟩, rfl⟩ := hStep
      exact .admission hOpened hRun (hCoherent hRun hOp) (admit_ok hAdmit)
  | resolve expectedVersion value confirm =>
      simp only [Organization.step, Organization.resolve, bind_ok, demand_ok, mapError_ok, pure_ok] at hStep
      obtain ⟨opened, hOpened, resolved, ⟨store, hRun, after, hOp, hAdmit⟩, rfl⟩ := hStep
      have hAfter := hCoherent hRun hOp
      unfold admitResumed at hAdmit
      split at hAdmit
      · exact .admission hOpened hRun hAfter (admit_ok hAdmit)
      · rename_i hIdle
        cases (pure_ok _ _).mp hAdmit
        obtain ⟨_, _, hBlocked, _⟩ := Store.acceptResolution_ok hOp
        exact .settle hOpened hRun hAfter ⟨fun _ => .inr hBlocked, fun hCollecting => absurd hCollecting hIdle⟩
  | abandon =>
      cases (pure_ok _ _).mp hStep
      exact .abandon

theorem Moves.sound {step : Step} (hMoves : Moves deployment org step next) (h : org.Sound) : next.Sound := by
  have hReserved : ∀ {runId : String} {store : Store}, org.run runId = .ok store → store.Begun →
      ∃ r ∈ org.reservations, r.runId = runId :=
    fun hRun hBegun => h.reserved _ ((run_ok h).mp hRun) hBegun
  cases hMoves with
  | create hNew => exact h.create hNew
  | work hRun hAdmitted hOp =>
      have hStore := h.coherent _ ((run_ok h).mp hRun)
      refine h.save ((Store.perform_changes hStore hOp).coherent hStore).1 fun hBegun => hReserved hRun ?_
      rcases Store.perform_rests hStore hOp hAdmitted with hRests | ⟨_, hBlocked⟩
      · exact hRests.begun hBegun
      · exact .inr hBlocked
  | quotas hBook => exact ⟨h.keyed, h.coherent, h.reserved, h.once, hBook⟩
  | lock => exact ⟨h.keyed, h.coherent, h.reserved, h.once, h.quotas⟩
  | admission _ _ hAfter hAdmits =>
      have hNext := hAdmits.sound h hAfter
      exact ⟨hNext.keyed, hNext.coherent, hNext.reserved, hNext.once, hNext.quotas⟩
  | settle _ hRun hAfter hRests =>
      have hNext := h.save hAfter fun hBegun => hReserved hRun (hRests.begun hBegun)
      exact ⟨hNext.keyed, hNext.coherent, hNext.reserved, hNext.once, hNext.quotas⟩
  | abandon => exact ⟨h.keyed, h.coherent, h.reserved, h.once, h.quotas⟩

/-- A step keeps the reservations, or adds one within the budget of its day. -/
theorem Moves.reservations {step : Step} (hMoves : Moves deployment org step next) :
    next.reservations = org.reservations ∨ ∃ reservation, Inserts deployment org next reservation := by
  cases hMoves with
  | admission _ _ _ hAdmits =>
      rcases hAdmits.reservation with hSame | ⟨reservation, _, hInserts⟩
      · exact .inl hSame
      · exact .inr ⟨reservation, hInserts.fresh, hInserts.appended, hInserts.day, hInserts.within⟩
  | _ => exact .inl rfl

/-! The active Runs. -/

theorem activeRuns_le (h : org.Sound) (runId : String) : org.activeRuns ≤ org.otherActive runId + 1 :=
  h.keyed.countP_le _ runId

theorem otherActive_save_self : (org.save runId after).otherActive runId = org.otherActive runId :=
  @countP_update_other _ _ _ _ _ (runId, after) _

/-- A Run that gains no slot leaves the others where they were. -/
theorem otherActive_save_le (h : org.Sound) (hRun : org.run runId = .ok store) (hActive : after.Active → store.Active)
    (other : String) : (org.save runId after).otherActive other ≤ org.otherActive other := by
  refine countP_update_le fun old hOld hKey hCount => ?_
  have hSame : old = (runId, store) := h.keyed.eq_of_key hOld ((run_ok h).mp hRun) hKey
  subst hSame
  obtain ⟨hAfter, hOther⟩ := Bool.and_eq_true_iff.mp hCount
  exact Bool.and_eq_true_iff.mpr ⟨decide_eq_true (hActive (of_decide_eq_true hAfter)), hOther⟩

theorem otherActive_save_succ (h : org.Sound) (other : String) :
    (org.save runId after).otherActive other ≤ org.otherActive other + 1 :=
  h.keyed.countP_update _ _

theorem otherActive_create (creation : Creation) (other : String) :
    otherActive { org with runs := org.runs ++ [(runId, createRun creation)] } other = org.otherActive other := by
  have hIdle : ¬ (createRun creation).Active := by
    intro hActive
    rcases hActive with hStatus | ⟨hStatus, _⟩ <;> cases hStatus
  simp [otherActive, List.countP_append, hIdle]

/-- The step overtakes no admission: what gives a Run a slot outside the lock
leaves the count of an open admission right, and a recovery finds a free slot. -/
def Orderly (deployment : Deployment) (org : Organization) : Step → Prop
  | .work runId op => ∀ store, org.run runId = .ok store → store.Occupies op →
      (¬ store.Active → ∀ opened ∈ org.admission, opened.runId ≠ runId → org.otherActive opened.runId < opened.active) ∧
      (op.recovers = true → ∀ policy, org.evaluationPolicy deployment = .ok policy →
        org.otherActive runId < policy.1.maxActiveRuns)
  | _ => True

/-- The step may give a Run a slot without an admission. -/
def Step.occupies : Step → Bool
  | .work _ op => op.recovers || op.cancels
  | _ => false

/-- No more Runs are active beside an open admission than it counted. -/
def Covered (org : Organization) : Prop := ∀ opened ∈ org.admission, org.otherActive opened.runId ≤ opened.active

theorem Moves.covered {step : Step} (hMoves : Moves deployment org step next) (h : org.Sound) (hCovered : org.Covered)
    (hOrderly : org.Orderly deployment step) : next.Covered := by
  intro opened hOpened
  cases hMoves with
  | create => exact Nat.le_trans (Nat.le_of_eq (otherActive_create _ _)) (hCovered opened hOpened)
  | @work runId op store after hRun hAdmitted hOp =>
      have hStore := h.coherent _ ((run_ok h).mp hRun)
      by_cases hGains : after.Active → store.Active
      · exact Nat.le_trans (otherActive_save_le h hRun hGains _) (hCovered opened hOpened)
      · obtain ⟨hAfter, hIdle⟩ := Classical.not_imp.mp hGains
        have hOccupies := (Store.perform_active hStore hOp hAdmitted hAfter).resolve_left hIdle
        by_cases hOwn : opened.runId = runId
        · rw [hOwn, otherActive_save_self, ← hOwn]
          exact hCovered opened hOpened
        · have hLess := (hOrderly store hRun hOccupies).1 hIdle opened hOpened hOwn
          have hMore : (org.save runId after).otherActive opened.runId ≤ org.otherActive opened.runId + 1 :=
            otherActive_save_succ h opened.runId
          omega
  | quotas => exact hCovered opened hOpened
  | lock =>
      cases hOpened
      exact Nat.le_refl _
  | admission => cases hOpened
  | settle => cases hOpened
  | abandon => cases hOpened

theorem collects_iff (h : org.Sound) :
    org.Collects runId ↔ ∃ store, (runId, store) ∈ org.runs ∧ store.progress.status = .collecting := by
  simp only [Collects, run_ok h]

/-- Where a step moves a Run into collecting, the Runs that are active then fit. -/
theorem Moves.fits {step : Step} (hMoves : Moves deployment org step next) (h : org.Sound) (hCovered : org.Covered)
    (hOrderly : org.Orderly deployment step) (hNext : next.Collects runId) (hBefore : ¬ org.Collects runId) :
    ∀ policy, org.evaluationPolicy deployment = .ok policy → next.activeRuns ≤ policy.1.maxActiveRuns := by
  have hSound := hMoves.sound h
  have hKept : ∀ {saved : String} {store after : Store}, org.run saved = .ok store →
      (org.save saved after).Collects runId → runId = saved ∧ after.progress.status = .collecting := by
    intro saved store after hRun hCollects
    obtain ⟨found, hFound, hStatus⟩ := hCollects
    rw [run_save h hRun] at hFound
    split at hFound
    · rename_i hSame
      cases hFound
      exact ⟨hSame, hStatus⟩
    · exact absurd ⟨found, hFound, hStatus⟩ hBefore
  intro policy hPolicy
  cases hMoves with
  | create =>
      obtain ⟨store, hMem, hStatus⟩ := (collects_iff hSound).mp hNext
      rcases List.mem_append.mp hMem with hOld | hNew
      · exact absurd ((collects_iff h).mpr ⟨store, hOld, hStatus⟩) hBefore
      · cases List.mem_singleton.mp hNew
        cases hStatus
  | @work saved op store after hRun hAdmitted hOp =>
      obtain ⟨rfl, hStatus⟩ := hKept hRun hNext
      have hStore := h.coherent _ ((run_ok h).mp hRun)
      rcases Store.perform_rests hStore hOp hAdmitted with hRests | ⟨hRecovers, _⟩
      · exact absurd ⟨store, hRun, hRests.collecting hStatus⟩ hBefore
      · have hFree := (hOrderly store hRun (.inl hRecovers)).2 hRecovers policy hPolicy
        have hCount := activeRuns_le hSound runId
        rw [otherActive_save_self] at hCount
        omega
  | quotas => exact absurd hNext hBefore
  | lock => exact absurd hNext hBefore
  | abandon => exact absurd hNext hBefore
  | settle _ hRun _ hRests =>
      obtain ⟨rfl, hStatus⟩ := hKept hRun hNext
      exact absurd ⟨_, hRun, hRests.collecting hStatus⟩ hBefore
  | @admission _ opened store after admitted hOpened hRun hAfter hAdmits =>
      obtain ⟨found, hFound, hFree⟩ := hAdmits.free
      have hSame : found = policy := Except.ok.inj (hFound.symm.trans hPolicy)
      have hCount : admitted.activeRuns ≤ admitted.otherActive opened.runId + 1 :=
        hSound.keyed.countP_le _ opened.runId
      have hOthers : admitted.otherActive opened.runId = org.otherActive opened.runId := by
        rw [otherActive, hAdmits.rows.1]
        exact otherActive_save_self
      have hSeen := hCovered opened hOpened
      rw [← hSame]
      change admitted.activeRuns ≤ _
      omega

/-! Whole histories. -/

theorem sound_empty : Sound {} where
  keyed := uniqueOn_nil _
  coherent := by simp
  reserved := by simp
  once := uniqueOn_nil _
  quotas := by simp [QuotaBook.Sound]

theorem Reaches.sound {allowed : Organization → Step → Prop} (h : Reaches deployment allowed org) : org.Sound := by
  induction h with
  | empty => exact sound_empty
  | step _ _ hStep ih => exact (step_moves ih hStep).sound ih

theorem Reaches.covered {allowed : Organization → Step → Prop} (h : Reaches deployment allowed org)
    (hAllowed : ∀ org step, allowed org step → org.Orderly deployment step) : org.Covered := by
  induction h with
  | empty => simp [Covered]
  | step hReaches hStep hNext ih => exact (step_moves hReaches.sound hNext).covered hReaches.sound ih (hAllowed _ _ hStep)

/-- Reservations are never taken back. -/
theorem Continues.kept (h : Continues deployment org next) (hSound : org.Sound) :
    next.Sound ∧ ∀ r ∈ org.reservations, r ∈ next.reservations := by
  induction h with
  | refl => exact ⟨hSound, fun _ hr => hr⟩
  | step _ hStep ih =>
      have hMoves := step_moves ih.1 hStep
      refine ⟨hMoves.sound ih.1, fun r hr => ?_⟩
      rcases hMoves.reservations with hSame | ⟨_, hInserts⟩
      · exact hSame ▸ ih.2 r hr
      · rw [hInserts.appended]
        exact List.mem_append_left _ (ih.2 r hr)

end Organization

/-- Capacity over whole histories. A Run that ever collected has exactly one
reservation, and each reservation fitted into its day when it was inserted,
whatever the order of the transactions. The active Runs fit whenever a Run is
moved into collecting, as long as no step overtakes an admission. -/
theorem organization_capacity {deployment : Deployment} {allowed : Organization → Organization.Step → Prop}
    {org : Organization} (h : Organization.Reaches deployment allowed org) :
    (∀ runId, org.Collects runId → ∀ later, Organization.Continues deployment org later →
      (later.reservations.filter (·.runId = runId)).length = 1) ∧
    (∀ step next, org.step deployment step = .ok next →
      (∀ reservation ∈ next.reservations, reservation ∉ org.reservations →
        reservation.budgetDay = reservation.reservedAt.utcDay ∧
        ∃ policy, org.evaluationPolicy deployment = .ok policy ∧
          next.used reservation.budgetDay ≤ policy.1.dailyProviderCalls) ∧
      ((∀ org step, allowed org step → org.Orderly deployment step) → org.Orderly deployment step →
        ∀ runId, next.Collects runId → ¬ org.Collects runId → ∃ policy, org.evaluationPolicy deployment = .ok policy ∧
          next.activeRuns ≤ policy.1.maxActiveRuns)) := by
  have hSound := h.sound
  refine ⟨?_, fun step next hStep => ⟨?_, ?_⟩⟩
  · intro runId hCollects later hLater
    obtain ⟨store, hMem, hStatus⟩ := (Organization.collects_iff hSound).mp hCollects
    obtain ⟨r, hr, hKey⟩ := hSound.reserved _ hMem (.inl hStatus)
    obtain ⟨hNext, hKept⟩ := hLater.kept hSound
    rw [hNext.once.filter_eq_singleton (hKept r hr) (decide_eq_true hKey)
      fun other _ hOther => (of_decide_eq_true hOther).trans hKey.symm]
    rfl
  · intro reservation hNew hOld
    rcases (Organization.step_moves hSound hStep).reservations with hSame | ⟨inserted, hInserts⟩
    · exact absurd (hSame ▸ hNew) hOld
    · rw [hInserts.appended] at hNew
      obtain rfl := List.mem_singleton.mp ((List.mem_append.mp hNew).resolve_left hOld)
      exact ⟨hInserts.day, hInserts.within⟩
  · intro hAllowed hOrderly runId hNext hBefore
    have hFits := (Organization.step_moves hSound hStep).fits hSound (h.covered hAllowed) hOrderly hNext hBefore
    obtain ⟨policy, hPolicy⟩ := hSound.quotas.evaluationPolicy_total deployment.capacity deployment.quotaBaseline
    have hRead := (mapError_ok AdmissionRefusal.quota _ _).mpr hPolicy
    exact ⟨policy, hRead, hFits policy hRead⟩

/-! Scripted organizations. -/

namespace Organization

variable {deployment : Deployment} {org next : Organization} {runId : String}

/-- Take the chosen steps one after the other. -/
def drive (deployment : Deployment) :
    Organization → List (Organization → Except AdmissionRefusal Step) → Except AdmissionRefusal Organization
  | org, [] => pure org
  | org, choose :: rest => do
      let step ← choose org
      require (step.occupies = false) .invalid
      let next ← org.step deployment step
      drive deployment next rest

theorem drive_reaches {script : List (Organization → Except AdmissionRefusal Step)}
    (hReaches : Reaches deployment (fun _ step => step.occupies = false) org)
    (h : org.drive deployment script = .ok next) :
    Reaches deployment (fun _ step => step.occupies = false) next := by
  induction script generalizing org with
  | nil =>
      cases (pure_ok _ _).mp h
      exact hReaches
  | cons choose rest ih =>
      simp only [drive, bind_ok, require_ok, exists_const] at h
      obtain ⟨step, _, hFree, middle, hStep, hRest⟩ := h
      exact ih (.step hReaches hFree hStep) hRest

theorem orderly_of_free {step : Step} (h : step.occupies = false) : org.Orderly deployment step := by
  cases step with
  | work runId op =>
      intro store _ hOccupies
      simp only [Step.occupies, Bool.or_eq_false_iff] at h
      rcases hOccupies with hRecovers | ⟨hCancels, _⟩
      · exact absurd hRecovers (by simp [h.1])
      · exact absurd hCancels (by simp [h.2])
  | _ => trivial

/-- The Run collects, as a check. -/
def collecting (org : Organization) (runId : String) : Bool :=
  (org.run runId).toOption.any fun store => store.progress.status = .collecting

theorem collects_iff_collecting : org.Collects runId ↔ org.collecting runId = true := by
  simp only [Collects, collecting, Option.any_eq_true, toOption_some, decide_eq_true_eq]

end Organization

namespace Pilot

theorem participant_positive : 0 < 500 ∧ 0 < 5 ∧ 0 < 3 ∧ 0 < 10 ∧ 0 < 2 ∧ 0 < 1 := by decide

theorem evaluation_positive : 0 < 1024 ∧ 0 < 1 := by decide

def deployment : Deployment where
  capacity := { positive := evaluation_positive }
  baseline := .exactly ⟨{ positive := participant_positive }, { positive := evaluation_positive }⟩
  editableModels := fun _ => true

/-- A script entry of one Run as a step of its organization. -/
def onRun (runId : String) (entry : ScriptStep) (org : Organization) : Except AdmissionRefusal Organization.Step := do
  let store ← org.run runId
  let op ← (entry.choose store).mapError .run
  pure (.work runId op)

/-- Create a Run and lock its organization for its admission. -/
def locked (runId : String) : List (Organization → Except AdmissionRefusal Organization.Step) :=
  [fun _ => pure (.create runId (creation .serialV1)), fun _ => pure (.lock runId)]

def admission : Organization.Step := .start 1 "operator" "go" (clock 0) true

/-- The first Run left its contract and is blocked; the second one collects. -/
def replaced : List (Organization → Except AdmissionRefusal Organization.Step) :=
  locked "a" ++ [fun _ => pure admission] ++
    (start.tail ++ [prepare 1 "e1", reserve 1, explain 2 "c1", prepare 3 "s1", reserve 3, breakContract 4]).map (onRun "a") ++
    locked "b" ++ [fun _ => pure admission]

/-- The exception for the first Run. -/
def recovery : Organization.Step := .work "a" (.authorizeContractRecovery 9 "release" exception true)

/-- The step moves the first Run into collecting and leaves more Runs active
than the limit. -/
def overruns (org : Organization) : Bool :=
  !org.collecting "a" && (org.step deployment recovery).toOption.any fun next =>
    next.collecting "a" && (org.evaluationPolicy deployment).toOption.any fun policy =>
      policy.1.maxActiveRuns < next.activeRuns

/-- The step moves the Run into collecting. -/
def collectsAfter (runId : String) (step : Organization.Step) (org : Organization) : Bool :=
  !org.collecting runId && (org.step deployment step).toOption.any fun next => next.collecting runId

end Pilot

/-- An organization that a script leads to, with the property that was checked. -/
theorem Organization.exists_reaches (deployment : Deployment)
    (script : List (Organization → Except AdmissionRefusal Organization.Step)) (check : Organization → Bool)
    (h : (Organization.drive deployment {} script).toOption.any check = true) :
    ∃ org, Organization.Reaches deployment (fun _ step => step.occupies = false) org ∧ check org = true := by
  rw [Option.any_eq_true] at h
  obtain ⟨org, hDrive, hCheck⟩ := h
  exact ⟨org, drive_reaches .empty (toOption_some.mp hDrive), hCheck⟩

/-- One Run: its start is its admission. -/
theorem organization_capacity_pilot : ∃ org next : Organization,
    org.step Pilot.deployment Pilot.admission = .ok next ∧ next.Collects "a" ∧
    (next.reservations.filter (·.runId = "a")).length = 1 ∧
    ∃ policy, org.evaluationPolicy Pilot.deployment = .ok policy ∧ next.activeRuns ≤ policy.1.maxActiveRuns := by
  obtain ⟨org, hReaches, hCheck⟩ := Organization.exists_reaches Pilot.deployment (Pilot.locked "a")
    (Pilot.collectsAfter "a" Pilot.admission) (by decide +kernel)
  simp only [Pilot.collectsAfter, Bool.and_eq_true, Bool.not_eq_true', Option.any_eq_true, toOption_some] at hCheck
  obtain ⟨hBefore, next, hStep, hAfter⟩ := hCheck
  have hNext := Organization.collects_iff_collecting.mpr hAfter
  have hIdle : ¬ org.Collects "a" := by
    rw [Organization.collects_iff_collecting, hBefore]
    exact Bool.false_ne_true
  have hFree : Pilot.admission.occupies = false := rfl
  have hReserved := (organization_capacity (hReaches.step hFree hStep)).1 "a" hNext next .refl
  have hFits := ((organization_capacity hReaches).2 _ _ hStep).2 (fun _ _ h => Organization.orderly_of_free h)
    (Organization.orderly_of_free hFree) "a" hNext hIdle
  exact ⟨org, next, hStep, hNext, hReserved, hFits⟩

/-- A recovery resumes the first Run beside the second one, although the limit
is one active Run. -/
theorem organization_overrun : ∃ (org next : Organization) (policy : EvaluationCapacityPolicy × QuotaSnapshot),
    Organization.Reaches Pilot.deployment (fun _ step => step.occupies = false) org ∧
    org.step Pilot.deployment Pilot.recovery = .ok next ∧ next.Collects "a" ∧ ¬ org.Collects "a" ∧
    org.evaluationPolicy Pilot.deployment = .ok policy ∧ policy.1.maxActiveRuns < next.activeRuns := by
  obtain ⟨org, hReaches, hCheck⟩ := Organization.exists_reaches Pilot.deployment Pilot.replaced
    Pilot.overruns (by decide +kernel)
  simp only [Pilot.overruns, Bool.and_eq_true, Bool.not_eq_true', Option.any_eq_true, toOption_some,
    decide_eq_true_eq] at hCheck
  obtain ⟨hBefore, next, hStep, hAfter, policy, hPolicy, hOver⟩ := hCheck
  refine ⟨org, next, policy, hReaches, hStep, Organization.collects_iff_collecting.mpr hAfter, ?_, hPolicy, hOver⟩
  rw [Organization.collects_iff_collecting, hBefore]
  exact Bool.false_ne_true

end QsAi
