import QsAi.Interpretation.Coherence

/-! Workers and their claims. A session has one owner at a time, and a worker that has
lost its session does not get it back. -/
namespace QsAi

namespace Interpretation

open Keyed Interrupted

/-! The owner of a session. -/

section Owners

variable {db db' : Database} {claim : Claim} {t t' : Thread}

/-- The session and the lease are as the claim says. -/
structure Thread.Held (t : Thread) (clock : Nat) (claim : Claim) : Prop where
  status : t.session.status = .running
  active : t.session.activeRunId = some claim.runId
  version : t.session.version = claim.session.version
  lease : ∃ lease ∈ t.lease, lease.fence = claim.fence ∧ clock < lease.expiresAt

theorem owns_iff (hSound : db.work.Sound db.clock) (hIssued : claim.Issued db.work) (hShows : Shows db.work t)
    (hValid : t.Valid db.clock) (hId : t.id = claim.session.id) : Owns db claim ↔ t.Held db.clock claim := by
  have hSession := row_lookup db claim.session.id
  rw [← hId, hShows.session] at hSession
  obtain ⟨row, hRow, hOwn⟩ := Option.map_eq_some_iff.mp hSession.symm
  rw [hId] at hRow
  have hLeases : lookup (·.threadId) db.leases row.session.id = t.lease := by
    rw [hOwn]
    exact hShows.lease
  constructor
  · rintro ⟨other, job, lease, hOther, -, hLease, hStatus, hActive, hVersion, -, -, hFence, hLive⟩
    obtain rfl := Option.some.inj (hRow.symm.trans hOther)
    rw [hOwn] at hStatus hActive hVersion
    exact ⟨hStatus, hActive, hVersion, lease, hLeases.symm.trans hLease, hFence, hLive⟩
  · rintro ⟨hStatus, hActive, hVersion, lease, hLease, hFence, hLive⟩
    obtain ⟨job, hJob, hJobId, hRun, -⟩ := hIssued.known
    have hCurrent : t.current.run.id = claim.runId := Option.some.inj (hValid.active.symm.trans hActive)
    have hOwnJob := hSound.job_of_run hShows hValid hJob (hRun.trans hCurrent.symm)
    obtain ⟨own, held, hFound, hHeld, hLeased, hToken, -⟩ := (hValid.running hStatus).job
    obtain rfl := Option.some.inj (hOwnJob.symm.trans hFound)
    obtain rfl := Option.some.inj (Option.mem_def.mp hLease |>.symm.trans hHeld)
    rw [← hOwn] at hStatus hActive hVersion
    exact ⟨row, job, lease, hRow, hSound.tidy.jobs.lookup_iff.mpr ⟨hJob, hJobId⟩, hLeases.trans hLease, hStatus, hActive, hVersion,
      hLeased, hToken.trans hFence, hFence, hLive⟩

/-- The thread of the session of a claim. -/
theorem Claim.Issued.thread (hIssued : claim.Issued db.work) (hSound : db.work.Sound db.clock) :
    ∃ t : Thread, t.id = claim.session.id ∧ Shows db.work t ∧ t.Valid db.clock := by
  obtain ⟨session, hFound, -⟩ := hIssued.session
  obtain ⟨hMem, hId⟩ := lookup_some hFound
  obtain ⟨t, rfl, hShows, hValid⟩ := hSound.threads session hMem
  exact ⟨t, hId, hShows, hValid⟩

/-- A step of a session gives it to no claim that was there. -/
theorem Thread.Held.back {clock clock' : Nat} (h : t'.Held clock' claim) (hClock : clock ≤ clock') (hStep : Advance clock t t')
    (hVersion : claim.session.version ≤ t.session.version) : t.Held clock claim := by
  rcases hStep.version with ⟨hSame, hLeases⟩ | hLater
  · obtain ⟨hStatus, hActive, hOwn, lease', hLease', hFence, hLive⟩ := h
    rw [hSame] at hStatus hActive hOwn
    obtain ⟨lease, hLease, hToken, hHeld⟩ := hLeases lease' hLease' (Nat.lt_of_le_of_lt hClock hLive)
    exact ⟨hStatus, hActive, hOwn, lease, hLease, hToken.trans hFence, hHeld⟩
  · exact absurd h.version (Nat.ne_of_gt (Nat.lt_of_le_of_lt hVersion hLater))

theorem owns_takes (hSound : db.work.Sound db.clock) (hIssued : claim.Issued db.work) (hTakes : Takes db.clock db.work db'.work t t')
    (hClock : db'.clock = db.clock) (hOwns : Owns db' claim) : Owns db claim := by
  have hNext : db'.work.Sound db'.clock := hClock ▸ hTakes.sound hSound
  have hLater := hIssued.takes hSound hTakes
  by_cases hOwn : claim.session.id = t.id
  · obtain ⟨session, hFound, hVersion⟩ := hIssued.session
    rw [hOwn, hTakes.shows.session, Option.some.injEq] at hFound
    subst hFound
    have hValid : t'.Valid db'.clock := hClock ▸ hTakes.step.valid hTakes.valid
    have hHeld := (owns_iff hNext hLater hTakes.next hValid (hTakes.id.trans hOwn.symm)).mp hOwns
    exact (owns_iff hSound hIssued hTakes.shows hTakes.valid hOwn.symm).mpr (hHeld.back hClock.ge hTakes.step hVersion)
  · obtain ⟨u, hId, hShows, hValid⟩ := hIssued.thread hSound
    have hOther := hTakes.moves.others u (by rwa [hId]) hShows
    have hHeld := (owns_iff hNext hLater hOther (hClock.symm ▸ hValid) hId).mp hOwns
    rw [hClock] at hHeld
    exact (owns_iff hSound hIssued hShows hValid hId).mpr hHeld

end Owners

theorem Effect.owns {system next : System} {given : Option Resources} (h : Effect system given next)
    (hOrdered : system.Ordered) {claim : Claim}
    (hClaim : claim ∈ system.claims) (hOwns : Owns next.db claim) : Owns system.db claim := by
  have hSound := hOrdered.sound
  have hIssued := hOrdered.claims claim hClaim
  cases h with
  | same => exact hOwns
  | waited clock setting hClock =>
      obtain ⟨row, job, lease, hRow, hJob, hLease, hStatus, hActive, hVersion, hLeased, hToken, hFence, hLive⟩ := hOwns
      exact ⟨row, job, lease, hRow, hJob, hLease, hStatus, hActive, hVersion, hLeased, hToken, hFence,
        Nat.lt_of_le_of_lt hClock hLive⟩
  | opened hOpened =>
      obtain ⟨u, hId, hShows, hValid⟩ := hIssued.thread hSound
      have hMem : u.id ∈ system.db.work.sessions.map Session.id := List.mem_map_of_mem hShows.mem
      have hNext := hOpened.moves.others u (fun hSame => hOpened.new (hSame ▸ hMem)) hShows
      have hHeld := (owns_iff (hOpened.sound hSound) (hIssued.opened hSound hOpened) hNext (hOpened.clock.symm ▸ hValid) hId).mp hOwns
      rw [hOpened.clock] at hHeld
      exact (owns_iff hSound hIssued hShows hValid hId).mpr hHeld
  | asked hCommit => exact owns_takes hSound hIssued hCommit.takes hCommit.clock hOwns
  | claimed _ hCommit => exact owns_takes hSound hIssued hCommit.takes hCommit.clock hOwns
  | renewed _ _ _ _ hTakes hRows => exact owns_takes hSound hIssued hTakes (by rw [hRows]) hOwns
  | marked => exact hOwns
  | sent => exact hOwns
  | recorded => exact hOwns
  | finished _ _ _ hCommit => exact owns_takes hSound hIssued hCommit.takes hCommit.clock hOwns

/-! A worker without its session. -/

/-- Every operation under the claim is refused and leaves nothing. -/
structure Refused (db : Database) (claim : Claim) : Prop where
  renew : ∀ ttlSeconds, ∃ refusal, transact (Database.renew claim ttlSeconds) db = (.error refusal, db)
  beginModelCall : ∀ requestJson invocationId commitAt,
    ∃ refusal, transact (Database.beginModelCall claim requestJson invocationId commitAt) db = (.error refusal, db)
  recordModelResponse : ∀ invocationId responseJson failureCode resultUnknown commitAt, ∃ refusal,
    transact (Database.recordModelResponse claim invocationId responseJson failureCode resultUnknown commitAt) db = (.error refusal, db)
  finish : ∀ library resources result questionId commitAt,
    ∃ refusal, transact (Database.finishIn library resources claim result questionId commitAt) db = (.error refusal, db)

theorem transact_refused {α : Type} {program : Program Database α} {db : Database}
    (h : ∀ value db', ¬ Completes program db value db') : ∃ refusal, transact program db = (.error refusal, db) := by
  rcases transact_cases program db with hRefused | ⟨value, db', -, hDone⟩
  · exact hRefused
  · exact absurd hDone (h value db')

theorem refused_of_lost {db : Database} {claim : Claim} (hLost : ¬ Owns db claim) : Refused db claim where
  renew ttlSeconds := transact_refused fun value db' hDone => by
    simp only [Database.renew, completes_bind, completes_refuseUnless, completes_modify] at hDone
    obtain ⟨_, _, ⟨-, rfl⟩, _, _, hRead, -⟩ := hDone
    exact hLost (readClaim_completes hRead).2.1
  beginModelCall _ _ _ := transact_refused fun _ _ hDone => hLost (beginModelCall_completes hDone).1
  recordModelResponse _ _ _ _ _ := transact_refused fun _ _ hDone => hLost (recordModelResponse_completes hDone).1
  finish _ _ _ _ _ := transact_refused fun _ _ hDone => hLost (finishIn_completes hDone).1

/-! Claims over a run. -/

/-- A later claim of a session has a higher fence. -/
def System.Fencing (system : System) : Prop :=
  system.claims.Pairwise fun first second => first.session.id = second.session.id → first.fence < second.fence

theorem Effect.fencing {system next : System} {given : Option Resources} (h : Effect system given next)
    (hOrdered : system.Ordered) (hFencing : system.Fencing) :
    next.Fencing := by
  cases h with
  | claimed stage hCommit hClaims =>
      refine List.pairwise_append.mpr ⟨hFencing, ?_, fun first hFirst second hSecond hSame => ?_⟩
      · cases stage.claim with
        | none => exact .nil
        | some claim => exact List.pairwise_singleton _ _
      · have hOf := hClaims second (Option.mem_toList.mp hSecond)
        obtain ⟨lease, hLease, hFence⟩ := (hOrdered.claims first hFirst).lease
        have hOwn : first.session.id = Thread.id _ := (hSame.trans (congrArg Session.id hOf.session)).trans hCommit.takes.id
        rw [hOwn, hCommit.takes.shows.lease] at hLease
        exact Nat.lt_of_le_of_lt hFence (hOf.fresh lease hLease)
  | _ => exact hFencing

/-- What a later system says of the claims of an earlier one. -/
structure System.Fenced (later system : System) : Prop where
  claims : ∃ given, later.claims = system.claims ++ given
  lost : ∀ claim ∈ system.claims, ¬ Owns system.db claim → ¬ Owns later.db claim ∧ Refused later.db claim
  fences : later.Fencing
  owner : ∀ (i j : Nat) (first second : Claim), later.claims[i]? = some first → later.claims[j]? = some second →
    first.session.id = second.session.id → Owns later.db first → Owns later.db second → i = j

theorem System.Fencing.owner {system : System} (h : system.Fencing) {i j : Nat} {first second : Claim}
    (hFirst : system.claims[i]? = some first) (hSecond : system.claims[j]? = some second)
    (hSession : first.session.id = second.session.id) (hOwns : Owns system.db first) (hOther : Owns system.db second) : i = j := by
  have hFence : first.fence = second.fence := by
    obtain ⟨row, _, lease, hRow, -, hLease, -, -, -, -, -, hHeld, -⟩ := hOwns
    obtain ⟨row', _, lease', hRow', -, hLease', -, -, -, -, -, hHeld', -⟩ := hOther
    rw [← hSession] at hRow'
    obtain rfl := Option.some.inj (hRow.symm.trans hRow')
    obtain rfl := Option.some.inj (hLease.symm.trans hLease')
    exact hHeld.symm.trans hHeld'
  obtain ⟨hBoundFirst, rfl⟩ := List.getElem?_eq_some_iff.mp hFirst
  obtain ⟨hBoundSecond, rfl⟩ := List.getElem?_eq_some_iff.mp hSecond
  rcases Nat.lt_trichotomy i j with hLess | hSame | hGreater
  · exact absurd hFence (Nat.ne_of_lt (List.pairwise_iff_getElem.mp h i j hBoundFirst hBoundSecond hLess hSession))
  · exact hSame
  · exact absurd hFence (Nat.ne_of_gt (List.pairwise_iff_getElem.mp h j i hBoundSecond hBoundFirst hGreater hSession.symm))

theorem Effect.claims {system next : System} {resources : Option Resources} (h : Effect system resources next) :
    ∃ given, next.claims = system.claims ++ given := by
  cases h with
  | claimed stage => exact ⟨_, rfl⟩
  | _ => exact ⟨[], (List.append_nil _).symm⟩

/-- In every run a session has one owner at a time, and a worker that has lost its session is refused for ever. -/
theorem run_fenced (library : Library) (setting : Setting) (clock : Nat) (first rest : List Operation) :
    ((System.initial setting clock).run library (first ++ rest)).Fenced ((System.initial setting clock).run library first) := by
  have hOrdered := run_ordered library setting clock first
  have hFencing := ((initial_ordered setting clock).run library (P := System.Fencing) .nil
    (fun hOrdered hFencing hEffect => hEffect.fencing hOrdered hFencing) first).2
  rw [System.run_append]
  generalize (System.initial setting clock).run library first = system at hOrdered hFencing
  have hRun := hOrdered.run library (P := fun later => later.Fencing ∧ (∃ given, later.claims = system.claims ++ given) ∧
      ∀ claim ∈ system.claims, Owns later.db claim → Owns system.db claim)
    ⟨hFencing, ⟨[], (List.append_nil _).symm⟩, fun _ _ hOwns => hOwns⟩ ?_ rest
  · obtain ⟨-, hLast, hClaims, hBack⟩ := hRun
    refine ⟨hClaims, fun claim hClaim hLost => ?_, hLast, fun i j first second => hLast.owner⟩
    have hNever := fun hOwns => hLost (hBack claim hClaim hOwns)
    exact ⟨hNever, refused_of_lost hNever⟩
  · rintro middle last resources hMiddle ⟨hFences, ⟨given, hGiven⟩, hBack⟩ hEffect
    refine ⟨hEffect.fencing hMiddle hFences, ?_, fun claim hClaim hOwns => ?_⟩
    · obtain ⟨further, hFurther⟩ := hEffect.claims
      exact ⟨given ++ further, by rw [hFurther, hGiven, List.append_assoc]⟩
    · have hKnown : claim ∈ middle.claims := hGiven ▸ List.mem_append_left _ hClaim
      exact hBack claim hClaim (hEffect.owns hMiddle hKnown hOwns)

/-! The tries of a run. -/

/-- How often the run was given to a worker. -/
def System.tries (system : System) (runId : String) : Nat := (system.claims.filter (·.runId == runId)).length

/-- The attempts of a job count the claims of its run. -/
def System.Counted (system : System) : Prop :=
  ∀ claim ∈ system.claims, ∃ job ∈ system.db.jobs, job.runId = claim.runId ∧ system.tries claim.runId ≤ job.attempt

theorem Effect.job {system next : System} {given : Option Resources} (h : Effect system given next) (hOrdered : system.Ordered) {job : Job}
    (hJob : job ∈ system.db.jobs) : ∃ job' ∈ next.db.jobs, job'.runId = job.runId ∧ job.attempt ≤ job'.attempt := by
  have hSound := hOrdered.sound
  have hTaken : ∀ {db : Database} {t t' : Thread}, Takes system.db.clock system.db.work db.work t t' →
      ∃ job' ∈ db.jobs, job'.runId = job.runId ∧ job.attempt ≤ job'.attempt := by
    intro db t t' hTakes
    obtain ⟨job', hJob', -, hRun, -, hTries⟩ := hTakes.job hSound hJob
    exact ⟨job', hJob', hRun, hTries⟩
  cases h with
  | same => exact ⟨job, hJob, rfl, Nat.le_refl _⟩
  | waited => exact ⟨job, hJob, rfl, Nat.le_refl _⟩
  | opened hOpened =>
      have hKept := hOpened.moves.job hSound hJob fun hSame => hOpened.new (hSame ▸ hSound.tidy.jobOf job hJob)
      exact ⟨job, hKept, rfl, Nat.le_refl _⟩
  | asked hCommit => exact hTaken hCommit.takes
  | claimed _ hCommit => exact hTaken hCommit.takes
  | renewed _ _ _ _ hTakes => exact hTaken hTakes
  | marked => exact ⟨job, hJob, rfl, Nat.le_refl _⟩
  | sent => exact ⟨job, hJob, rfl, Nat.le_refl _⟩
  | recorded => exact ⟨job, hJob, rfl, Nat.le_refl _⟩
  | finished _ _ _ hCommit => exact hTaken hCommit.takes

theorem Effect.counted {system next : System} {given : Option Resources} (h : Effect system given next)
    (hOrdered : system.Ordered) (hCounted : system.Counted) :
    next.Counted := by
  have hJobs := fun job (hJob : job ∈ system.db.jobs) => h.job hOrdered hJob
  have hStays : ∀ claim ∈ system.claims, ∃ job ∈ next.db.jobs, job.runId = claim.runId ∧ system.tries claim.runId ≤ job.attempt := by
    intro claim hClaim
    obtain ⟨job, hJob, hRun, hTries⟩ := hCounted claim hClaim
    obtain ⟨job', hJob', hSame, hMore⟩ := hJobs job hJob
    exact ⟨job', hJob', hSame.trans hRun, Nat.le_trans hTries hMore⟩
  cases h with
  | claimed stage hCommit hClaims =>
      cases hStage : stage.claim with
      | none => simpa only [System.Counted, System.tries, Option.toList_none, List.append_nil] using hStays
      | some given =>
          have hOf := hClaims given hStage
          obtain ⟨old, job, hOld, hJob, -, hAttempt⟩ := hOf.job
          have hTakes := hCommit.takes
          have hOldMem := (hTakes.shows.job_mem (Thread.current_mem _) hOld).1
          have hOldRun := ((hTakes.valid.linked _ (Thread.current_mem _)).job old hOld).1
          have hMem := (hTakes.next.job_mem (Thread.current_mem _) hJob).1
          have hRun := (((hTakes.step.valid hTakes.valid).linked _ (Thread.current_mem _)).job job hJob).1
          intro claim hClaim
          have hCount : ∀ runId, (system.claims ++ [given]).filter (·.runId == runId) =
              system.claims.filter (·.runId == runId) ++ if given.runId == runId then [given] else [] := by
            intro runId
            rw [List.filter_append, List.filter_singleton, Bool.cond_eq_ite]
          simp only [System.tries, Option.toList_some, hCount, List.length_append] at hClaim ⊢
          by_cases hSame : given.runId = claim.runId
          · refine ⟨job, hMem, by rw [hRun, ← hOf.run, hSame], ?_⟩
            rw [if_pos (beq_iff_eq.mpr hSame), List.length_singleton, hAttempt]
            refine Nat.succ_le_succ ?_
            -- An earlier claim of the run counts on the same job.
            cases hEarlier : system.claims.filter (·.runId == claim.runId) with
            | nil => exact Nat.zero_le _
            | cons first rest =>
                obtain ⟨hFirst, hFirstRun⟩ := List.mem_filter.mp (hEarlier ▸ List.mem_cons_self : first ∈ _)
                obtain ⟨counted, hCountedMem, hCountedRun, hTries⟩ := hCounted first hFirst
                have hJobRun : counted.runId = old.runId := by
                  rw [hCountedRun, eq_of_beq hFirstRun, ← hSame, hOf.run, hOf.same, hOldRun]
                rw [← hOrdered.sound.job_inj hCountedMem hOldMem hJobRun, ← hEarlier]
                rwa [System.tries, eq_of_beq hFirstRun] at hTries
          · rw [if_neg (by simpa using hSame), List.length_nil, Nat.add_zero]
            rcases List.mem_append.mp hClaim with hOldClaim | hNew
            · exact hStays claim hOldClaim
            · exact absurd (congrArg Claim.runId (List.mem_singleton.mp hNew)).symm hSame
  | _ => exact hStays

end Interpretation

end QsAi
