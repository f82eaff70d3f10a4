import QsAi.Maintenance.Exchange

/-! A rollback is as safe as a switch. A fast one restores the archive of the
switch while nothing changed, a reverse one converts the current rows. -/
namespace QsAi

namespace SchemaRefactor

open Interrupted

variable {Rows Manifest : Type} {deployment : Deployment Rows Manifest} [DecidableEq Manifest]

/-- A rollback that is on record, with every schema known. -/
structure Planned (deployment : Deployment Rows Manifest) (knowledge : Knowledge Manifest) (state : Journal Manifest) : Prop where
  started : Started deployment knowledge state
  fenced : knowledge.fenced = true
  pending : state.phase = .rollbackPending

theorem checkFast_holds {knowledge : Knowledge Manifest} (state : Journal Manifest) (current : Manifest)
    (runtimeNeverStarted : Bool) :
    Holds (Sound deployment) (At deployment knowledge) (checkFast deployment state current runtimeNeverStarted) fun _ world =>
      At deployment knowledge world ∧ (runtimeNeverStarted = true → state.sourceManifest = some current) := by
  refine Holds.ite ?_ ?_
  · intro _
    refine (refuseUnless_holds _ _).bind_fact fun _ hSame => (manifest_keeps knowledge _ _).bind fun archive => ?_
    refine (refuseUnless_holds _ _).post ?_
    rintro _ world ⟨hAt, -⟩
    exact ⟨hAt, fun _ => hSame⟩
  · intro hReverse
    exact holds_pure fun world hAt => ⟨hAt, fun hFast => absurd hFast hReverse⟩

/-- The plan of a rollback is saved. -/
theorem save_planned {knowledge : Knowledge Manifest} {state : Journal Manifest} (hClean : knowledge.dirty = none)
    (hFenced : knowledge.fenced = true) (hProper : state.Proper deployment) (hPhase : state.phase = .rollbackPending)
    (hReady : ∀ world : World Rows Manifest, At deployment knowledge world → state.Ready deployment world.durable) :
    Holds (Sound deployment) (At deployment knowledge) (save deployment state) fun _ world =>
      ∃ next, At deployment next world ∧ Planned deployment next state :=
  (save_holds hClean hProper hReady).post fun _ _ hAt => ⟨_, hAt, ⟨rfl, hClean, hProper⟩, hFenced, hPhase⟩

theorem planRollback_holds {knowledge : Knowledge Manifest} {state : Journal Manifest} (stoppedAt : Nat)
    (runtimeNeverStarted : Bool) (hStarted : Started deployment knowledge state) (hFenced : knowledge.fenced = true) :
    Holds (Sound deployment) (At deployment knowledge) (planRollback deployment state stoppedAt runtimeNeverStarted)
      fun result world => ∃ next, At deployment next world ∧ Planned deployment next result := by
  refine (deadline_holds knowledge _).bind fun _ => (exchanged_holds hFenced).bind_fact fun done hDone => ?_
  refine (refuseUnless_holds _ _).bind_fact fun _ hExchanged => (manifest_keeps knowledge _ _).bind fun current => ?_
  refine (checkFast_holds state current runtimeNeverStarted).bind_fact fun _ hFast => ?_
  refine (existsSchema_holds (Or.inr hFenced)).bind_fact fun failed hFailed => (look_keeps knowledge _).bind fun destination => ?_
  refine (refuseUnless_holds _ _).bind_fact fun _ hFree => (now_keeps knowledge).bind fun time => ?_
  refine (demand_holds _ _).bind_fact fun evidence _ => ?_
  obtain ⟨kept, hKept, hConforms⟩ := hDone hExchanged
  have hLayout : deployment.layout state.sourceHead kept.tables = true := by
    simp only [Deployment.conforms, Bool.and_eq_true] at hConforms
    exact hConforms.1.1
  have hOther : "ai_failed_" ++ deployment.suffix state.source state.createdAt ≠ state.archive := by
    intro hSame
    rw [hSame, hKept] at hFailed
    rw [hFailed] at hFree
    exact absurd hFree.1 (by simp)
  have hProper := hStarted.proper
  refine (save_planned hStarted.clean hFenced (Journal.Proper.retained ?_ _ _ _ _) (retained_constants _ _ _ _ _).1 ?_).bind
    fun _ => holds_pure fun _ hState => hState
  · refine ⟨hProper.source, hProper.target, hProper.archive, hProper.heads, ?_⟩
    rintro _ plan hPlan hMode
    obtain rfl := Option.some.inj hPlan
    have hNever : runtimeNeverStarted = true := by
      by_contra hReverse
      simp [hReverse] at hMode
    exact ⟨by simp [hNever], hOther, hFast hNever⟩
  · intro world hAt _ plan _ _ schema _ _
    obtain ⟨-, -, -, hArchive, hOld, -⟩ := retained_constants _ _ _ _ _
    rw [hArchive, hOld]
    refine ⟨kept, (hAt.durable (Or.inr hFenced) ?_).trans hKept, hLayout⟩
    rw [hStarted.clean]
    simp

theorem rollbackState_holds {knowledge : Knowledge Manifest} {state : Journal Manifest} (stoppedAt : Nat)
    (runtimeNeverStarted : Bool) (hStarted : Started deployment knowledge state) (hFenced : knowledge.fenced = true) :
    Holds (Sound deployment) (At deployment knowledge) (rollbackState deployment state stoppedAt runtimeNeverStarted)
      fun result world => ∃ next, At deployment next world ∧ Planned deployment next result :=
  Holds.ite (fun hPending => holds_pure fun _ hAt => ⟨knowledge, hAt, hStarted, hFenced, hPending⟩)
    fun _ => planRollback_holds stoppedAt runtimeNeverStarted hStarted hFenced

/-- Before its exchange, a rollback finds the head of the switch. -/
theorem rollbackComplete_holds {knowledge : Knowledge Manifest} {state : Journal Manifest} (plan : Rollback Manifest)
    (hFenced : knowledge.fenced = true) :
    Holds (Sound deployment) (At deployment knowledge) (rollbackComplete deployment state plan) fun done world =>
      At deployment knowledge world ∧ (done = false → ∃ schema, knowledge.view state.source = some schema ∧
        headOf schema.tables = some state.targetHead) := by
  refine (headOfSchema_holds (Or.inr hFenced)).bind_fact fun head hHead => Holds.ite ?_ ?_
  · rintro rfl
    exact holds_pure fun world hAt => ⟨hAt, fun _ => hHead⟩
  · intro _
    refine (refuseUnless_holds _ _).bind_fact fun _ _ => (requireSchema_keeps knowledge _ _).bind fun _ => ?_
    refine (requireSchema_keeps knowledge _ _).bind fun _ => (look_keeps knowledge _).bind fun staging => ?_
    refine (refuseUnless_holds _ _).bind_fact fun _ _ => (manifest_keeps knowledge _ _).bind fun source => ?_
    refine (manifest_keeps knowledge _ _).bind fun archive => (refuseUnless_holds _ _).bind_fact fun _ _ => ?_
    exact holds_pure fun world hAt => ⟨hAt, nofun⟩

theorem rollbackComplete_keeps (knowledge : Knowledge Manifest) (state : Journal Manifest) (plan : Rollback Manifest) :
    Holds (Sound deployment) (At deployment knowledge) (rollbackComplete deployment state plan) fun _ =>
      At deployment knowledge := by
  refine ((contents_keeps knowledge _ _).bind fun schema => (demand_holds _ _).post fun _ _ hState => hState.1).bind
    fun head => Holds.ite (fun _ => holds_pure fun _ hAt => hAt) ?_
  intro _
  refine (refuseUnless_holds _ _).bind_fact fun _ _ => (requireSchema_keeps knowledge _ _).bind fun _ => ?_
  refine (requireSchema_keeps knowledge _ _).bind fun _ => (look_keeps knowledge _).bind fun staging => ?_
  refine (refuseUnless_holds _ _).bind_fact fun _ _ => (manifest_keeps knowledge _ _).bind fun source => ?_
  refine (manifest_keeps knowledge _ _).bind fun archive => (refuseUnless_holds _ _).bind_fact fun _ _ => ?_
  exact holds_pure fun _ hAt => hAt

/-- What a rollback restores: a complete schema with the evidence of the source. -/
structure Restorable (deployment : Deployment Rows Manifest) (knowledge : Knowledge Manifest) (state : Journal Manifest)
    (target : String) (evidence : Manifest) : Prop where
  fenced : knowledge.fenced = true
  saved : knowledge.journal = some state
  tables : ∃ current incoming, knowledge.view state.source = some current ∧ knowledge.view target = some incoming ∧
    deployment.layout state.sourceHead incoming.tables = true ∧
    evidence = deployment.manifest state.targetHead current.tables ∧
    evidence = deployment.manifest state.sourceHead incoming.tables

theorem reverseTables_holds {knowledge : Knowledge Manifest} {state : Journal Manifest} {plan : Rollback Manifest}
    (hPlanned : Planned deployment knowledge state) (hPlan : state.rollback = some plan) (hMode : plan.mode = .reverse)
    (hName : plan.target ≠ deployment.live) :
    Holds (Sound deployment) (At deployment knowledge) (reverseTables deployment state plan) fun evidence world =>
      ∃ next, At deployment next world ∧ Restorable deployment next state plan.target evidence := by
  have hSaved : Saved deployment knowledge state := ⟨hPlanned.started.journal, hPlanned.started.proper.source⟩
  have hApart : Apart knowledge.journal plan.target := by
    intro saved hJournal _ other hOther hFast
    obtain rfl := Option.some.inj (hPlanned.started.journal.symm.trans hJournal)
    obtain rfl := Option.some.inj (hPlan.symm.trans hOther)
    rw [hMode] at hFast
    cases hFast
  have hPrepare : Holds (Sound deployment) (At deployment knowledge) (prepareReverse deployment state plan) fun _ =>
      Worked deployment plan.target knowledge fun next => next.Holding deployment state.sourceHead plan.target := by
    refine (conformsSchema_holds (Or.inl hName) state.sourceHead).bind_fact fun conforms hConforms => Holds.ite ?_ ?_
    · intro hFound
      exact holds_pure fun world hAt => worked_self hAt (hConforms hFound)
    · intro _
      exact resumeIsolated_holds state.sourceHead state.source hSaved hApart
  refine Holds.bind_exists hPrepare fun _ prepared hPrepared => ?_
  obtain ⟨hBeside, hClean, hHolding⟩ := hPrepared
  have hFill : Holds (Sound deployment) (At deployment prepared) (fillReverse deployment state plan) fun _ =>
      Filled deployment plan.target state.sourceHead prepared := by
    refine (look_keeps prepared _).bind fun clean => Holds.ite ?_ ?_
    · intro _
      exact copyData_holds _ _ hName (hBeside.journal ▸ hApart) (hClean hPlanned.started.clean) hHolding
    · intro _
      exact holds_pure fun world hAt => ⟨prepared, hAt, Knowledge.Beside.refl _ _, hHolding⟩
  refine Holds.bind_exists hFill fun _ filled hFilled => ?_
  obtain ⟨hLater, hStill⟩ := hFilled
  refine (verify_keeps filled _ _ _ _ _).bind fun _ => ?_
  have hJournal : filled.journal = knowledge.journal := hLater.journal.trans hBeside.journal
  refine Holds.bind_exists (alignCounters_holds state.source state.targetHead _ hName (hJournal ▸ hApart) hStill)
    fun _ aligned hAligned => ?_
  obtain ⟨hLast, -, hKept⟩ := hAligned
  have hFenced : aligned.fenced = true :=
    (hLast.fenced.trans (hLater.fenced.trans hBeside.fenced)).trans hPlanned.fenced
  refine (verify_holds _ _ hFenced).post ?_
  rintro evidence world ⟨hAt, current, incoming, hCurrent, hIncoming, hSource, hTarget⟩
  obtain ⟨schema, hSchema, hConforms⟩ := hKept
  obtain rfl := Option.some.inj (hSchema.symm.trans hIncoming)
  simp only [Deployment.conforms, Bool.and_eq_true] at hConforms
  exact ⟨aligned, hAt, hFenced, (hLast.journal.trans hJournal).trans hPlanned.started.journal,
    current, schema, hCurrent, hSchema, hConforms.1.1, hSource, hTarget⟩

theorem rollbackSource_holds {knowledge : Knowledge Manifest} {state : Journal Manifest} {plan : Rollback Manifest}
    (hPlanned : Planned deployment knowledge state) (hPlan : state.rollback = some plan)
    (hName : plan.target ≠ deployment.live)
    (hFast : plan.mode = .fast → ∃ kept, knowledge.view plan.target = some kept ∧
      deployment.layout state.sourceHead kept.tables = true) :
    Holds (Sound deployment) (At deployment knowledge) (rollbackSource deployment state plan) fun evidence world =>
      ∃ next, At deployment next world ∧ Restorable deployment next state plan.target evidence := by
  unfold rollbackSource
  cases hMode : plan.mode with
  | reverse => exact reverseTables_holds hPlanned hPlan hMode hName
  | fast =>
      refine (verify_holds _ _ hPlanned.fenced).post ?_
      rintro evidence world ⟨hAt, current, incoming, hCurrent, hIncoming, hSource, hTarget⟩
      obtain ⟨kept, hKept, hLayout⟩ := hFast hMode
      obtain rfl := Option.some.inj (hKept.symm.trans hIncoming)
      exact ⟨knowledge, hAt, hPlanned.fenced, hPlanned.started.journal, current, kept, hCurrent, hKept, hLayout, hSource,
        hTarget⟩

/-- Before its exchange, a fast rollback finds its archive complete. -/
theorem fast_ready {knowledge : Knowledge Manifest} {state : Journal Manifest} {plan : Rollback Manifest}
    (hPlanned : Planned deployment knowledge state) (hPlan : state.rollback = some plan) {schema : Schema}
    (hSchema : knowledge.view state.source = some schema) (hHead : headOf schema.tables = some state.targetHead)
    {world : World Rows Manifest} (hSound : Sound deployment world) (hAt : At deployment knowledge world) :
    plan.mode = .fast → ∃ kept, knowledge.view state.archive = some kept ∧
      deployment.layout state.sourceHead kept.tables = true := by
  intro hMode
  have hClean : ∀ name, knowledge.dirty ≠ some name := by
    intro name
    rw [hPlanned.started.clean]
    exact nofun
  obtain ⟨-, hReady⟩ := hSound.journal state (hAt.journal.trans hPlanned.started.journal)
  have hLive : world.durable deployment.live = some schema := by
    rw [← hPlanned.started.proper.source]
    exact (hAt.durable (Or.inr hPlanned.fenced) (hClean _)).trans hSchema
  obtain ⟨kept, hKept, hLayout⟩ := hReady hPlanned.pending plan hPlan hMode schema hLive hHead
  exact ⟨kept, (hAt.durable (Or.inr hPlanned.fenced) (hClean _)).symm.trans hKept, hLayout⟩

theorem rollbackTables_holds {knowledge : Knowledge Manifest} {state : Journal Manifest} {plan : Rollback Manifest}
    (hFaithful : deployment.Faithful) (stopped : Bool) (stoppedAt : Nat) (done : Bool)
    (hPlanned : Planned deployment knowledge state) (hPlan : state.rollback = some plan)
    (hHead : done = false → ∃ schema, knowledge.view state.source = some schema ∧
      headOf schema.tables = some state.targetHead) :
    Holds (Sound deployment) (At deployment knowledge) (rollbackTables deployment state plan stopped stoppedAt done)
      fun _ world => ∃ next, At deployment next world ∧ next.dirty = none := by
  refine Holds.ite (fun _ => holds_pure fun world hAt => ⟨knowledge, hAt, hPlanned.started.clean⟩) fun hOpen => ?_
  obtain ⟨schema, hSchema, hVersion⟩ := hHead (Bool.eq_false_iff.mpr hOpen)
  refine Holds.given (fun _ hSound hAt => fast_ready hPlanned hPlan hSchema hVersion hSound hAt) fun hReady => ?_
  have hProper := hPlanned.started.proper
  refine (sameStop_holds _ _).bind fun stop => (deadline_holds knowledge stop).bind fun _ => ?_
  refine (manifest_keeps knowledge _ _).bind fun current => (refuseUnless_holds _ _).bind_fact fun _ _ => ?_
  refine (owned_holds state plan.target).bind_fact fun _ hOwned => ?_
  have hName : plan.target ≠ deployment.live := hProper.source ▸ hOwned.1
  refine Holds.bind_exists (emptyArchive_holds hProper.source plan.archive) fun _ emptied hEmptied => ?_
  obtain ⟨hBeside, hClean, hArchive⟩ := hEmptied
  have hEmptyPlanned : Planned deployment emptied state :=
    ⟨⟨hBeside.journal.trans hPlanned.started.journal, hClean hPlanned.started.clean, hProper⟩,
      hBeside.fenced.trans hPlanned.fenced, hPlanned.pending⟩
  have hFast : plan.mode = .fast → ∃ kept, emptied.view plan.target = some kept ∧
      deployment.layout state.sourceHead kept.tables = true := by
    intro hMode
    obtain ⟨hTarget, hOther, -⟩ := hProper.fast hPlanned.pending plan hPlan hMode
    rw [hTarget, hBeside.view state.archive (Ne.symm hOther)]
    exact hReady hMode
  refine Holds.bind_exists (rollbackSource_holds hEmptyPlanned hPlan hName hFast) fun evidence found hFound => ?_
  refine (refuseUnless_holds _ _).bind_fact fun _ hSame => (deadline_holds found stop).bind fun _ => ?_
  refine Holds.bind_exists (fenced_holds found stopped) fun _ last hLast => ?_
  obtain ⟨hFenced, hJournal, -, hView⟩ := hLast
  obtain ⟨present, incoming, hPresent, hIncoming, hLayout, hSource, hTarget⟩ := hFound.tables
  have hKnown : ∀ name, last.view name = found.view name := fun name => hView name (Or.inr hFound.fenced)
  have hMatched : Matched deployment last state plan.target state.sourceHead := by
    refine ⟨hFenced, hJournal.trans hFound.saved, hName, hProper.sourceHead.1, ?_, fun _ _ _ _ => hProper.sourceHead.2⟩
    refine ⟨state.targetHead, present, incoming, ?_, (hKnown _).trans hIncoming, hLayout, hSource.symm.trans hTarget, ?_⟩
    · rw [hKnown, ← hProper.source]
      exact hPresent
    · cases hMode : plan.mode with
      | reverse => exact Or.inl ⟨hPlanned.pending, plan, hPlan, hMode⟩
      | fast =>
          have hManifest := (hProper.fast hPlanned.pending plan hPlan hMode).2.2
          exact Or.inr (hManifest.trans (congrArg some (hSame.symm.trans hSource)))
  refine Holds.bind_exists (exchangeBeforeDeadline_holds hFaithful plan.archive stop hProper.source hMatched)
    fun _ next hNext => ?_
  refine (rollbackComplete_keeps next state plan).bind fun complete => (refuseUnless_holds _ _).post ?_
  rintro _ world ⟨hAt, -⟩
  exact ⟨next, hAt, hNext.2⟩

/-- The journal of a completed rollback is proper. -/
theorem rolledBack_proper {state : Journal Manifest} (plan : Rollback Manifest) (hProper : state.Proper deployment)
    (archives : List (Retained Manifest)) (since : Nat) :
    Journal.Proper deployment { retained { state with
        phase := Phase.rolledBack, rolledBackAt := some since, retainedArchives := archives }
      plan.archive state.targetHead plan.manifest since with runtimeMayHaveWritten := true } ∧
    (retained { state with phase := Phase.rolledBack, rolledBackAt := some since, retainedArchives := archives }
      plan.archive state.targetHead plan.manifest since).phase ≠ .rollbackPending := by
  have hPhase : (retained { state with phase := Phase.rolledBack, rolledBackAt := some since, retainedArchives := archives }
      plan.archive state.targetHead plan.manifest since).phase ≠ .rollbackPending := by
    rw [(retained_constants _ _ _ _ _).1]
    exact nofun
  have hAdvanced : Journal.Proper deployment { state with
      phase := Phase.rolledBack, rolledBackAt := some since, retainedArchives := archives } :=
    hProper.advance rfl rfl rfl ⟨rfl, rfl⟩ nofun
  exact ⟨(hAdvanced.retained _ _ _ _).advance rfl rfl rfl ⟨rfl, rfl⟩ hPhase, hPhase⟩

theorem completeRollback_holds {knowledge : Knowledge Manifest} {state : Journal Manifest} (plan : Rollback Manifest)
    (hClean : knowledge.dirty = none) (hProper : state.Proper deployment) :
    Holds (Sound deployment) (At deployment knowledge) (completeRollback deployment state plan) (Ended deployment) := by
  refine (now_keeps knowledge).bind fun current => ?_
  cases plan.mode with
  | fast =>
      have hNext := rolledBack_proper plan hProper (state.retainedArchives.map fun record =>
        if record.schema = state.archive then { record with emptyAfterRestore := true } else record)
        (state.rolledBackAt.getD current)
      exact (save_advanced hClean hNext.1 hNext.2).bind fun _ => ended_pure hNext.1 hNext.2
  | reverse =>
      have hNext := rolledBack_proper plan hProper state.retainedArchives (state.rolledBackAt.getD current)
      exact (save_advanced hClean hNext.1 hNext.2).bind fun _ => ended_pure hNext.1 hNext.2

/-- The rollback, from its plan on. -/
theorem rollback_holds {knowledge : Knowledge Manifest} {state : Journal Manifest} (hFaithful : deployment.Faithful)
    (connection : Connection) (stopped : Bool) (stoppedAt : Nat) (runtimeNeverStarted : Bool)
    (hStarted : Started deployment knowledge state) :
    Holds (Sound deployment) (At deployment knowledge)
      (rollback deployment connection state stopped stoppedAt runtimeNeverStarted) (Ended deployment) := by
  refine (binding_holds knowledge connection state).bind fun _ => (refuseUnless_holds _ _).bind_fact fun _ _ => ?_
  refine Holds.fence hStarted fun found hFound hFenced _ => Holds.ite ?_ ?_
  · intro hDone
    refine (requireSchema_keeps found _ _).bind fun _ => ended_pure hFound.proper ?_
    rw [hDone]
    exact nofun
  · intro _
    refine Holds.bind_exists (rollbackState_holds stoppedAt runtimeNeverStarted hFound hFenced) fun state next hPlanned => ?_
    refine (demand_holds _ _).bind_fact fun plan hPlan => ?_
    refine (rollbackComplete_holds plan hPlanned.fenced).bind_fact fun done hHead => ?_
    refine Holds.bind_exists (rollbackTables_holds hFaithful stopped stoppedAt done hPlanned hPlan hHead)
      fun _ last hLast => ?_
    exact completeRollback_holds plan hLast hPlanned.started.proper

end SchemaRefactor

end QsAi
