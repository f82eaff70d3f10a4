import Mathlib.Data.List.Induction
import QsAi.Interpretation.Workers

/-! The limits of participants. Active slots, and the reservations of a day, grow only
within the limits in force, whatever the order of the transactions. -/
namespace QsAi

namespace Interpretation

open Keyed

/-- What a limit counts: active slots, or the reservations of a day. -/
inductive Tally
  | active
  | daily (budgetDay : Nat × Nat × Nat)

/-- Whom a limit of an organization is for. -/
inductive Holder
  | organization
  | user (subjectId : String)
  | assessment (assessmentId : String)

def Tally.counts : Tally → Reservation → Bool
  | .active, row => row.active
  | .daily budgetDay, row => row.budgetDay == budgetDay

def Holder.holds : Holder → Reservation → Bool
  | .organization, _ => true
  | .user subjectId, row => row.subjectId == subjectId
  | .assessment assessmentId, row => row.assessmentIds.contains assessmentId

def Tally.limit (policy : ParticipantCapacityPolicy) : Tally → Holder → Nat
  | .active, .organization => policy.activeOrg
  | .active, .user _ => policy.activeUser
  | .active, .assessment _ => policy.activeAssessment
  | .daily _, .organization => policy.dailyOrg
  | .daily _, .user _ => policy.dailyUser
  | .daily _, .assessment _ => policy.dailyAssessment

/-- A reservation that counts towards a limit of the organization. -/
def Reservation.uses (organizationId : String) (tally : Tally) (holder : Holder) (row : Reservation) : Bool :=
  holder.holds row && (row.organizationId == organizationId && tally.counts row)

def Database.usage (db : Database) (organizationId : String) (tally : Tally) (holder : Holder) : Nat :=
  db.reservations.countP (·.uses organizationId tally holder)

/-- The limits of an organization in a transaction, which the quotas and the deployment give. -/
def Database.InForce (db : Database) (resources : Resources) (organizationId : String) (policy : ParticipantCapacityPolicy) : Prop :=
  ∃ snapshot, (db.quotas organizationId).participantPolicy resources.capacity resources.quotaBaseline = .ok (policy, snapshot)

/-- What a transaction with these resources may do to the usage. -/
def Database.Grants (db : Database) (resources : Option Resources) (db' : Database) : Prop :=
  ∀ organizationId tally holder, db'.usage organizationId tally holder ≤ db.usage organizationId tally holder ∨
    ∃ given ∈ resources, ∃ policy, db.InForce given organizationId policy ∧
      db'.usage organizationId tally holder ≤ tally.limit policy holder

/-! Room for one more reservation. -/

section Room

variable {db db' : Database} {resources : Resources} {session : Session} {slot : Reservation}

theorem participantPolicy_inForce {policy : ParticipantCapacityPolicy × QuotaSnapshot}
    (h : participantPolicy db session resources.capacity resources.quotaBaseline = .ok policy) :
    db.InForce resources session.actor.orgId policy.1 := by
  unfold participantPolicy at h
  split at h
  · next hPolicy =>
      cases h
      exact ⟨_, hPolicy⟩
  · cases h
  · cases h
  · cases h

/-- The reservation is of the session's participant. -/
structure Reservation.For (slot : Reservation) (session : Session) : Prop where
  organization : slot.organizationId = session.actor.orgId
  subject : slot.subjectId = session.actor.subjectId
  assessments : slot.assessmentIds = session.assessmentIds

theorem Reservation.New.for (h : slot.New session) : slot.For session := ⟨h.organization, h.subject, h.assessments⟩

/-- Every limit that the reservation counts towards has room. -/
theorem Reservation.For.room (h : slot.For session) {rows : List Reservation} {L : Holder → Nat}
    {orgLimit userLimit assessmentLimit : Nat}
    (hFits : fits rows session orgLimit userLimit assessmentLimit = true) (hOrganization : L .organization = orgLimit)
    (hUser : ∀ subjectId, L (.user subjectId) = userLimit)
    (hAssessment : ∀ assessmentId, L (.assessment assessmentId) = assessmentLimit) {holder : Holder}
    (hHolds : holder.holds slot = true) : rows.countP holder.holds < L holder := by
  simp only [fits, Bool.and_eq_true, decide_eq_true_iff, List.all_eq_true] at hFits
  obtain ⟨⟨hOrg, hOwn⟩, hEach⟩ := hFits
  rw [List.countP_eq_length_filter]
  cases holder with
  | organization =>
      rw [hOrganization]
      exact Nat.lt_of_le_of_lt (List.length_filter_le _ _) hOrg
  | user subjectId =>
      obtain rfl : slot.subjectId = subjectId := beq_iff_eq.mp hHolds
      rw [hUser, h.subject]
      exact hOwn
  | assessment assessmentId =>
      rw [hAssessment]
      refine hEach assessmentId ?_
      rw [← h.assessments]
      exact List.contains_iff_mem.mp hHolds

theorem roomFor_fits (h : roomFor db resources session = some true) :
    ∃ policy, participantPolicy db session resources.capacity resources.quotaBaseline = .ok policy ∧
      fits (db.reservations.filter fun row => row.organizationId == session.actor.orgId && row.active) session
        policy.1.activeOrg policy.1.activeUser policy.1.activeAssessment = true := by
  unfold roomFor at h
  split at h
  · cases h
  · next policy hPolicy => exact ⟨policy, hPolicy, Option.some.inj h⟩

/-- The usage, counted as the source counts it. -/
theorem usage_filter (organizationId : String) (tally : Tally) (holder : Holder) : db.usage organizationId tally holder =
    (db.reservations.filter fun row => row.organizationId == organizationId && tally.counts row).countP holder.holds := by
  rw [List.countP_filter]
  rfl

end Room

/-! What a transaction does to the usage. -/

section Grants

variable {db db' : Database} {resources : Resources} {session : Session} {organizationId : String} {tally : Tally} {holder : Holder}

theorem release_uses (time : DateTime) (row : Reservation)
    (h : (Edit.release time row).uses organizationId tally holder = true) : row.uses organizationId tally holder = true := by
  unfold Edit.release at h
  split at h
  · cases tally with
    | active => simp [Reservation.uses, Tally.counts] at h
    | daily budgetDay =>
        cases holder <;> exact h
  · exact h

/-- One row is changed under its key. -/
theorem countP_onKey {rows : List Reservation} (hUnique : UniqueOn (·.runId) rows) {slot : Reservation} (hSlot : slot ∈ rows)
    (f : Reservation → Reservation) (p : Reservation → Bool) : ∃ others,
      (rows.map (onKey (·.runId) slot.runId f)).countP p = others + (if p (f slot) = true then 1 else 0) ∧
        rows.countP p = others + (if p slot = true then 1 else 0) := by
  refine ⟨(rows.filter (·.runId ≠ slot.runId)).countP p, ?_, ?_⟩
  · rw [← List.countP_cons]
    exact (hUnique.perm_replace hSlot f).countP_eq p
  · rw [← List.countP_cons]
    exact (hUnique.perm_cons_filter hSlot).countP_eq p

/-- A slot is given when all of its limits have room. -/
theorem Reservation.For.acquired {slot : Reservation} (hOwn : slot.For session) (hUnique : UniqueOn (·.runId) db.reservations)
    (hSlot : slot ∈ db.reservations) (hRoom : slot.active = true ∨ roomFor db resources session = some true)
    (hRows : db'.reservations = db.reservations.map (onKey (·.runId) slot.runId (Edit.acquire resources.time))) :
    db.Grants (some resources) db' := by
  intro organizationId tally holder
  obtain ⟨others, hAfter, hBefore⟩ := countP_onKey hUnique hSlot (Edit.acquire resources.time) (·.uses organizationId tally holder)
  unfold Database.usage
  rw [hRows, hAfter, hBefore]
  by_cases hActive : slot.active = true
  · rw [Edit.acquire, if_pos hActive]
    exact .inl (Nat.le_refl _)
  rw [Edit.acquire, if_neg hActive]
  cases tally with
  | daily budgetDay =>
      refine .inl (Nat.le_of_eq ?_)
      cases holder <;> rfl
  | active =>
      by_cases hUses : Reservation.uses organizationId .active holder { slot with active := true, acquiredAt := some resources.time } = true
      · refine .inr ⟨resources, rfl, ?_⟩
        obtain ⟨hHolds, hFacts⟩ := Bool.and_eq_true_iff.mp hUses
        obtain rfl : session.actor.orgId = organizationId :=
          hOwn.organization.symm.trans (beq_iff_eq.mp (Bool.and_eq_true_iff.mp hFacts).1)
        obtain ⟨policy, hPolicy, hFits⟩ := roomFor_fits (hRoom.resolve_left hActive)
        refine ⟨policy.1, participantPolicy_inForce hPolicy, ?_⟩
        have hHeld : holder.holds slot = true := by
          cases holder <;> exact hHolds
        have hLess := hOwn.room (L := Tally.active.limit policy.1) hFits rfl (fun _ => rfl) (fun _ => rfl) hHeld
        have hUsage := hBefore.symm.trans (usage_filter session.actor.orgId .active holder)
        rw [if_pos hUses]
        exact Nat.lt_of_le_of_lt ((Nat.le_add_right _ _).trans hUsage.le) hLess
      · rw [if_neg hUses]
        exact .inl (Nat.le_add_right _ _)

/-- A place in a day is given when all limits of the day have room. -/
theorem Reservation.New.added {slot : Reservation} (hNew : slot.New session) (hAdmitted : Admitted db resources session slot)
    (hRows : db'.reservations = db.reservations ++ [slot]) : db.Grants (some resources) db' := by
  intro organizationId tally holder
  unfold Database.usage
  rw [hRows, List.countP_append, List.countP_singleton]
  by_cases hUses : slot.uses organizationId tally holder = true
  · refine .inr ⟨resources, rfl, ?_⟩
    obtain ⟨hHolds, hFacts⟩ := Bool.and_eq_true_iff.mp hUses
    obtain ⟨hOrganization, hCounts⟩ := Bool.and_eq_true_iff.mp hFacts
    obtain rfl : session.actor.orgId = organizationId := hNew.organization.symm.trans (beq_iff_eq.mp hOrganization)
    obtain ⟨policy, hPolicy, hFits⟩ := hAdmitted
    refine ⟨policy.1, participantPolicy_inForce hPolicy, ?_⟩
    cases tally with
    | active => exact absurd (hNew.active.symm.trans hCounts) Bool.false_ne_true
    | daily budgetDay =>
        obtain rfl : slot.budgetDay = budgetDay := beq_iff_eq.mp hCounts
        have hLess := hNew.for.room (L := (Tally.daily slot.budgetDay).limit policy.1) hFits rfl (fun _ => rfl) (fun _ => rfl) hHolds
        rw [if_pos hUses]
        exact Nat.lt_of_le_of_lt (usage_filter session.actor.orgId (.daily slot.budgetDay) holder).le hLess
  · rw [if_neg hUses]
    exact .inl (Nat.le_refl _)

theorem SlotStep.grants (hUnique : UniqueOn (·.runId) db.reservations) (hStep : SlotStep db resources session db'.reservations)
    (hOwn : ∀ slot ∈ db'.reservations, session.activeRunId = some slot.runId → slot.For session) :
    db.Grants (some resources) db' := by
  generalize hRows : db'.reservations = rows at hStep hOwn
  cases hStep with
  | same _ hSame =>
      intro organizationId tally holder
      unfold Database.usage
      rw [hRows, hSame]
      exact .inl (Nat.le_refl _)
  | released runId time =>
      intro organizationId tally holder
      unfold Database.usage
      rw [hRows, List.countP_map]
      refine .inl (List.countP_mono_left fun row _ hUses => ?_)
      simp only [Function.comp_apply, onKey] at hUses
      split at hUses
      · exact release_uses time row hUses
      · exact hUses
  | @acquired slot hSlot hRun hRoom =>
      obtain ⟨hRunId, -, hOrganization, hSubject, hAssessments⟩ := Edit.acquire_links resources.time slot
      have hNext := hOwn _ (List.mem_map_of_mem hSlot) (by rw [onKey_self rfl, hRunId, hRun])
      rw [onKey_self rfl] at hNext
      have hSlotOwn : slot.For session := ⟨hOrganization.symm.trans hNext.organization, hSubject.symm.trans hNext.subject,
        hAssessments.symm.trans hNext.assessments⟩
      exact hSlotOwn.acquired hUnique hSlot hRoom hRows
  | added hNew hAdmitted => exact hNew.added hAdmitted hRows

end Grants

/-! Runs. -/

section Run

theorem Database.Grants.of_same {db db' : Database} {resources : Option Resources} (h : db'.reservations = db.reservations) :
    db.Grants resources db' := by
  intro organizationId tally holder
  unfold Database.usage
  rw [h]
  exact .inl (Nat.le_refl _)

/-- The reservation of the active run is of the session's participant. -/
theorem Shows.slot_for {clock : Nat} {work : Work} {t : Thread} (hShows : Shows work t) (hSound : work.Sound clock)
    (hValid : t.Valid clock) : ∀ slot ∈ work.slots, t.session.activeRunId = some slot.runId → slot.For t.session := by
  intro slot hSlot hActive
  rw [hValid.active, Option.some.injEq] at hActive
  have hOwn := hSound.slot_of_run hShows hValid hSlot hActive.symm
  obtain ⟨-, -, hOrganization, hSubject, hAssessments⟩ := (hValid.linked _ t.current_mem).slot slot hOwn
  exact ⟨hOrganization, hSubject, hAssessments⟩

theorem Commit.grants {db db' : Database} {resources : Resources} {t t' : Thread} (h : Commit db db' resources t t')
    (hSound : db.work.Sound db.clock) : db.Grants (some resources) db' :=
  h.slots.grants hSound.tidy.slots (h.takes.next.slot_for (h.takes.sound hSound) (h.takes.step.valid h.takes.valid))

theorem Opened.grants {db db' : Database} {resources : Resources} {t : Thread} (h : Opened db db' resources t)
    (hSound : db.work.Sound db.clock) : db.Grants (some resources) db' :=
  h.slots.grants hSound.tidy.slots (h.shows.slot_for (hSound.moved h.moves rfl h.shows h.valid) h.valid)

/-- Every operation raises a tally only within the limit in force. -/
theorem Effect.grants {system next : System} {given : Option Resources} (h : Effect system given next) (hOrdered : system.Ordered) :
    system.db.Grants given next.db := by
  have hSound := hOrdered.sound
  cases h with
  | same => exact .of_same rfl
  | waited => exact .of_same rfl
  | opened hOpened hGiven => exact hGiven ▸ hOpened.grants hSound
  | asked hCommit _ _ hGiven => exact hGiven ▸ hCommit.grants hSound
  | claimed _ hCommit _ _ _ hGiven => exact hGiven ▸ hCommit.grants hSound
  | renewed _ _ _ _ _ hRows =>
      rw [hRows]
      exact .of_same rfl
  | marked => exact .of_same rfl
  | sent => exact .of_same rfl
  | recorded => exact .of_same rfl
  | finished _ _ _ hCommit _ _ _ _ hGiven => exact hGiven ▸ hCommit.grants hSound

end Run

/-- The usage in a run of operations. -/
structure System.Limited (library : Library) (start : System) (operations : List Operation) : Prop where
  step : ∀ first operation rest, operations = first ++ operation :: rest →
    (start.run library first).db.Grants operation.resources (start.run library (first ++ [operation])).db
  total : ∀ organizationId tally holder, (start.run library operations).db.usage organizationId tally holder = 0 ∨
    ∃ first operation rest, operations = first ++ operation :: rest ∧ ∃ given ∈ operation.resources, ∃ policy,
      (start.run library first).db.InForce given organizationId policy ∧
        (start.run library operations).db.usage organizationId tally holder ≤ tally.limit policy holder

/-- In every run, active slots and the reservations of a day grow only within the limits in force, so there are never more of
them than a limit allowed when the last one was given. -/
theorem run_limited (library : Library) (setting : Setting) (clock : Nat) (operations : List Operation) :
    (System.initial setting clock).Limited library operations := by
  have hStep : ∀ first operation, ((System.initial setting clock).run library first).db.Grants operation.resources
      ((System.initial setting clock).run library (first ++ [operation])).db := by
    intro first operation
    rw [System.run_append]
    have hOrdered := run_ordered library setting clock first
    exact (Effect.of_step library hOrdered operation).grants hOrdered
  refine ⟨fun first operation rest _ => hStep first operation, fun organizationId tally holder => ?_⟩
  induction operations using List.reverseRecOn with
  | nil => exact .inl rfl
  | append_singleton operations operation ih =>
      rcases hStep operations operation organizationId tally holder with hLess | ⟨given, hGiven, policy, hPolicy, hWithin⟩
      · rcases ih with hNone | ⟨first, earlier, rest, rfl, given, hGiven, policy, hPolicy, hWithin⟩
        · exact .inl (Nat.le_zero.mp (hLess.trans hNone.le))
        · refine .inr ⟨first, earlier, rest ++ [operation], ?_, given, hGiven, policy, hPolicy, hLess.trans hWithin⟩
          rw [List.append_assoc, List.cons_append]
      · exact .inr ⟨operations, operation, [], rfl, given, hGiven, policy, hPolicy, hWithin⟩

end Interpretation

end QsAi
