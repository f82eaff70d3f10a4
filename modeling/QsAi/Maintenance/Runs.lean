import QsAi.Maintenance.Rollback

/-! Whole runs of a cutover. The removal of archives is the last command; every
command and every write of the application keeps a cutover sound, and so does
every sequence of them. -/
namespace QsAi

namespace SchemaRefactor

open Interrupted

variable {Rows Manifest : Type} {deployment : Deployment Rows Manifest}

/-! The removal of archives. -/

/-- What the check of an archive established. -/
structure Checked (deployment : Deployment Rows Manifest) (knowledge : Knowledge Manifest) (state : Journal Manifest)
    (kept : Retained Manifest) : Prop where
  apart : kept.schema ≠ deployment.live
  owned : kept.schema ∈ state.ownedSchemas
  retention : kept.retainedSince + retentionSeconds ≤ knowledge.now
  contents : ∀ schema, knowledge.view kept.schema = some schema → kept.Matches deployment schema

/-- Only time has passed. -/
structure Knowledge.Later (knowledge next : Knowledge Manifest) : Prop where
  view : next.view = knowledge.view
  journal : next.journal = knowledge.journal
  dirty : next.dirty = knowledge.dirty
  now : knowledge.now ≤ next.now

theorem Knowledge.Later.refl (knowledge : Knowledge Manifest) : knowledge.Later knowledge := ⟨rfl, rfl, rfl, le_rfl⟩

theorem Knowledge.Later.trans {first next last : Knowledge Manifest} (h : first.Later next) (hNext : next.Later last) :
    first.Later last where
  view := hNext.view.trans h.view
  journal := hNext.journal.trans h.journal
  dirty := hNext.dirty.trans h.dirty
  now := h.now.trans hNext.now

theorem Checked.later {knowledge next : Knowledge Manifest} {state : Journal Manifest} {kept : Retained Manifest}
    (h : Checked deployment knowledge state kept) (hLater : knowledge.Later next) : Checked deployment next state kept where
  apart := h.apart
  owned := h.owned
  retention := h.retention.trans hLater.now
  contents schema hSchema := h.contents schema (hLater.view ▸ hSchema)

/-- The clock was read: it is not earlier than what was read. -/
theorem now_later (knowledge : Knowledge Manifest) :
    Holds (Sound deployment) (At deployment knowledge) (now deployment) fun current world =>
      ∃ next, At deployment next world ∧ (knowledge.Later next ∧ current ≤ next.now) :=
  (now_holds knowledge).post fun current _ hAt =>
    ⟨_, hAt, ⟨rfl, rfl, rfl, le_max_left _ _⟩, le_max_right _ current⟩

section

variable [DecidableEq Manifest]

theorem checkArchive_holds {knowledge : Knowledge Manifest} {state : Journal Manifest} (hSource : state.source = deployment.live)
    (kept : Retained Manifest) :
    Holds (Sound deployment) (At deployment knowledge) (checkArchive deployment state kept) fun _ world =>
      ∃ next, At deployment next world ∧ (knowledge.Later next ∧ Checked deployment next state kept) := by
  refine (owned_holds state kept.schema).bind_fact fun _ hOwned => (refuseUnless_holds _ _).bind_fact fun _ _ => ?_
  have hName : kept.schema ≠ deployment.live := hSource ▸ hOwned.1
  refine Holds.bind_exists (now_later knowledge) fun current next hNow => ?_
  obtain ⟨hLater, hCurrent⟩ := hNow
  refine (refuseUnless_holds _ _).bind_fact fun _ hRetention => ?_
  have hChecked : ∀ schema, next.view kept.schema = schema → (∀ found, schema = some found → kept.Matches deployment found) →
      Checked deployment next state kept := by
    rintro _ rfl hMatches
    exact ⟨hName, hOwned.2, hRetention.trans hCurrent, hMatches⟩
  refine (existsSchema_holds (Or.inl hName)).bind_fact fun found hFound => Holds.ite ?_ ?_
  · intro hMissing
    rw [hMissing] at hFound
    have hNone : next.view kept.schema = none := Option.not_isSome_iff_eq_none.mp (by simp [← hFound])
    exact (refuseUnless_holds _ _).post fun _ _ hState => ⟨next, hState.1, hLater, hChecked none hNone nofun⟩
  · intro _
    refine Holds.ite ?_ ?_
    · intro hEmpty
      refine (tablesOf_holds (Or.inl hName)).bind_fact fun names hNames => (refuseUnless_holds _ _).post ?_
      rintro _ world ⟨hAt, hBlank⟩
      refine ⟨next, hAt, hLater, hChecked _ rfl ?_⟩
      intro schema hSchema
      rw [hSchema, hBlank] at hNames
      simpa [Retained.Matches, hEmpty, tableNames] using hNames.symm
    · intro hFull
      refine (requireSchema_holds (Or.inl hName) _).bind_fact fun _ hConforms => ?_
      refine (manifest_holds (Or.inl hName) _).bind_fact fun evidence hEvidence => (refuseUnless_holds _ _).post ?_
      rintro _ world ⟨hAt, hSame⟩
      obtain ⟨schema, hSchema, hLayout⟩ := hConforms
      obtain ⟨other, hOther, rfl⟩ := hEvidence
      obtain rfl := Option.some.inj (hSchema.symm.trans hOther)
      refine ⟨next, hAt, hLater, hChecked _ hSchema ?_⟩
      intro found hFound
      obtain rfl := Option.some.inj hFound
      rw [Retained.Matches, if_neg hFull]
      exact ⟨hLayout, hSame⟩

theorem checkArchives_holds {knowledge : Knowledge Manifest} {state : Journal Manifest} (hSource : state.source = deployment.live)
    (archives : List (Retained Manifest)) :
    Holds (Sound deployment) (At deployment knowledge) (checkArchives deployment state archives) fun _ world =>
      ∃ next, At deployment next world ∧ (knowledge.Later next ∧ ∀ kept ∈ archives, Checked deployment next state kept) := by
  induction archives generalizing knowledge with
  | nil => exact holds_pure fun world hAt => ⟨knowledge, hAt, Knowledge.Later.refl _, by simp⟩
  | cons kept rest ih =>
      refine Holds.bind_exists (checkArchive_holds hSource kept) fun _ found hFound => ih.post ?_
      rintro _ world ⟨next, hAt, hLater, hRest⟩
      refine ⟨next, hAt, hFound.1.trans hLater, ?_⟩
      intro other hOther
      rcases List.mem_cons.mp hOther with rfl | hOther
      · exact hFound.2.later hLater
      · exact hRest other hOther

end

/-- The removal has come to the archives that are left. -/
structure Cleaning (deployment : Deployment Rows Manifest) (knowledge : Knowledge Manifest) (state : Journal Manifest)
    (rest : List (Retained Manifest)) : Prop where
  clean : knowledge.dirty = none
  proper : state.Proper deployment
  pending : state.phase ≠ .rollbackPending
  checked : ∀ kept ∈ rest, Checked deployment knowledge state kept

/-- Other archives of the same journal. -/
theorem Journal.Proper.archives {state : Journal Manifest} (h : state.Proper deployment) (hPhase : state.phase ≠ .rollbackPending)
    (archives : List (Retained Manifest)) : Journal.Proper deployment { state with retainedArchives := archives } :=
  h.advance rfl rfl rfl ⟨rfl, rfl⟩ hPhase

theorem Checked.removed {knowledge next : Knowledge Manifest} {state : Journal Manifest} {kept : Retained Manifest} {name : String}
    (h : Checked deployment knowledge state kept) (hView : next.view = knowledge.view.set name none)
    (hNow : next.now = knowledge.now) : Checked deployment next state kept where
  apart := h.apart
  owned := h.owned
  retention := hNow ▸ h.retention
  contents schema hSchema := by
    rw [hView] at hSchema
    by_cases hName : kept.schema = name
    · rw [hName, Database.set_same] at hSchema
      cases hSchema
    · rw [Database.set_other hName] at hSchema
      exact h.contents schema hSchema

theorem dropArchive_holds {knowledge : Knowledge Manifest} {state : Journal Manifest} {kept : Retained Manifest}
    {rest : List (Retained Manifest)} (done : List (Retained Manifest))
    (hCleaning : Cleaning deployment knowledge state (kept :: rest)) :
    Holds (Sound deployment) (At deployment knowledge) (dropArchive deployment state done kept rest) fun _ world =>
      ∃ next, At deployment next world ∧ Cleaning deployment next state rest := by
  have hKept := hCleaning.checked kept (by simp)
  have hRest : ∀ other ∈ rest, Checked deployment knowledge state other := fun other hOther =>
    hCleaning.checked other (by simp [hOther])
  refine (existsSchema_holds (Or.inl hKept.apart)).bind_fact fun found hFound => Holds.ite ?_ ?_
  · intro hThere
    rw [hThere] at hFound
    obtain ⟨schema, hSchema⟩ := Option.isSome_iff_exists.mp hFound.symm
    have hProper := hCleaning.proper.archives hCleaning.pending (done ++ { kept with dropPending := true } :: rest)
    refine (save_advanced hCleaning.clean hProper hCleaning.pending).bind fun _ => ?_
    refine Holds.bind (drop_holds hKept.apart ?_ rfl hKept.owned hSchema (Or.inr ?_)) fun _ => holds_pure fun world hAt => ?_
    · intro saved hSaved hPhase
      obtain rfl := Option.some.inj hSaved
      exact absurd hPhase hCleaning.pending
    · exact ⟨{ kept with dropPending := true }, by simp, rfl, hKept.retention, hKept.contents schema hSchema⟩
    · refine ⟨_, hAt, rfl, hCleaning.proper, hCleaning.pending, ?_⟩
      exact fun other hOther => (hRest other hOther).removed rfl rfl
  · intro _
    exact holds_pure fun world hAt => ⟨knowledge, hAt, hCleaning.clean, hCleaning.proper, hCleaning.pending, hRest⟩

theorem dropArchives_holds {knowledge : Knowledge Manifest} {state : Journal Manifest} (done rest : List (Retained Manifest))
    (hCleaning : Cleaning deployment knowledge state rest) :
    Holds (Sound deployment) (At deployment knowledge) (dropArchives deployment state done rest) fun _ world =>
      ∃ next, At deployment next world ∧ next.dirty = none := by
  induction rest generalizing knowledge done with
  | nil => exact holds_pure fun world hAt => ⟨knowledge, hAt, hCleaning.clean⟩
  | cons kept rest ih =>
      refine Holds.bind_exists (dropArchive_holds done hCleaning) fun dropped next hNext => ?_
      refine Holds.bind_exists (now_later next) fun current last hLast => ?_
      have hProper := hNext.proper.archives hNext.pending
        (done ++ { dropped with deletedAt := some (dropped.deletedAt.getD current) } :: rest)
      refine (save_advanced (hLast.1.dirty.trans hNext.clean) hProper hNext.pending).bind fun _ => ih _ ?_
      refine ⟨hLast.1.dirty.trans hNext.clean, hNext.proper, hNext.pending, ?_⟩
      intro other hOther
      obtain ⟨hApart, hOwned, hRetention, hContents⟩ := (hNext.checked other hOther).later hLast.1
      exact ⟨hApart, hOwned, hRetention, hContents⟩

/-- The commit and the journal that end a command. -/
theorem conclude_holds (state : Journal Manifest) :
    Holds (Sound deployment) (Ended deployment state) (do commit deployment; save deployment state) fun _ _ => True := by
  refine holds_of_exists fun knowledge => holds_of_fact fun hEnded => (commit_holds knowledge).bind fun _ => ?_
  exact (save_advanced rfl hEnded.1 hEnded.2).post fun _ _ _ => trivial

section

variable [DecidableEq Manifest]

theorem cleanup_holds {knowledge : Knowledge Manifest} {state : Journal Manifest} (connection : Connection)
    (hStarted : Started deployment knowledge state) :
    Holds (Sound deployment) (At deployment knowledge) (cleanup deployment connection state) (Ended deployment) := by
  refine (binding_holds knowledge connection state).bind fun _ => (refuseUnless_holds _ _).bind_fact fun _ _ => ?_
  refine (refuseUnless_holds _ _).bind_fact fun _ _ => ?_
  refine Holds.bind_exists (checkArchives_holds hStarted.proper.source _) fun _ found hFound => ?_
  obtain ⟨hLater, hChecked⟩ := hFound
  have hClean : found.dirty = none := hLater.dirty.trans hStarted.clean
  have hProper : Journal.Proper deployment { state with phase := Phase.cleanupPending } :=
    hStarted.proper.advance rfl rfl rfl ⟨rfl, rfl⟩ nofun
  refine (save_advanced hClean hProper nofun).bind fun _ => ?_
  refine Holds.bind_exists (dropArchives_holds [] state.retainedArchives ⟨hClean, hProper, nofun, ?_⟩)
    fun archives last hLast => ?_
  · intro kept hKept
    obtain ⟨hApart, hOwned, hRetention, hContents⟩ := hChecked kept hKept
    exact ⟨hApart, hOwned, hRetention, hContents⟩
  · have hCleaned : Journal.Proper deployment { state with phase := Phase.cleaned, retainedArchives := archives } :=
      hStarted.proper.advance rfl rfl rfl ⟨rfl, rfl⟩ nofun
    exact (save_advanced hLast hCleaned nofun).bind fun _ => ended_pure hCleaned nofun

/-! Every command. -/

theorem runCommand_holds {knowledge : Knowledge Manifest} {state : Journal Manifest} (hFaithful : deployment.Faithful)
    (connection : Connection) (command : Command) (hStarted : Started deployment knowledge state) :
    Holds (Sound deployment) (At deployment knowledge) (runCommand deployment connection state command)
      (Ended deployment) := by
  cases command with
  | prepare => exact prepare_holds connection hStarted
  | copy writersStopped stoppedAt => exact copy_holds connection writersStopped stoppedAt hStarted
  | verify writersStopped =>
      refine (verified_holds connection writersStopped hStarted).post ?_
      rintro result world ⟨next, hAt, hVerified, rfl⟩
      exact ⟨next, hAt, hVerified.started.proper.advance rfl rfl rfl ⟨rfl, rfl⟩ nofun, nofun⟩
  | switch writersStopped => exact switch_holds hFaithful connection writersStopped hStarted
  | rollback writersStopped stoppedAt runtimeNeverStarted =>
      exact rollback_holds hFaithful connection writersStopped stoppedAt runtimeNeverStarted hStarted
  | cleanup => exact cleanup_holds connection hStarted

theorem executeCommand_holds {knowledge : Knowledge Manifest} {state : Journal Manifest} (hFaithful : deployment.Faithful)
    (connection : Connection) (command : Command) (hStarted : Started deployment knowledge state) :
    Holds (Sound deployment) (At deployment knowledge) (executeCommand deployment connection state command) fun _ _ => True :=
  (runCommand_holds hFaithful connection command hStarted).bind fun result => conclude_holds result

end

/-! Runs. -/

/-- What holds between two commands. -/
structure Quiet (deployment : Deployment Rows Manifest) (world : World Rows Manifest) : Prop where
  sound : Sound deployment world
  view : world.view = world.durable
  fenced : world.fenced = false

/-- What a command knows when it starts. -/
def World.known (world : World Rows Manifest) : Knowledge Manifest :=
  ⟨world.durable, world.journal, false, none, world.clock⟩

theorem Quiet.known {world : World Rows Manifest} (h : Quiet deployment world) (schedule : List Moment) :
    Sound deployment { world with schedule } ∧ At deployment world.known { world with schedule } := by
  refine ⟨⟨h.sound.live, h.sound.history, h.sound.journal⟩, ?_⟩
  refine ⟨fun name _ => congrFun h.view name, rfl, h.fenced, fun name _ => (congrFun h.view name).symm, nofun, le_rfl⟩

/-- However a program ends, its connection is closed after it. -/
theorem finish_quiet {world : World Rows Manifest} {program : Maintenance Rows Manifest Unit} (schedule : List Moment)
    (h : Quiet deployment world)
    (hProgram : Holds (Sound deployment) (At deployment world.known) program fun _ _ => True) :
    Quiet deployment (World.finish (program.run { world with schedule })) := by
  obtain ⟨hSound, hAt⟩ := h.known schedule
  have hRun := hProgram _ hSound hAt
  cases hResult : program.run { world with schedule } with
  | ok value last =>
      rw [hResult] at hRun
      exact ⟨⟨hRun.1.live, hRun.1.history, hRun.1.journal⟩, rfl, rfl⟩
  | error refusal last =>
      rw [hResult] at hRun
      exact ⟨⟨hRun.live, hRun.history, hRun.journal⟩, rfl, rfl⟩

theorem write_quiet {world : World Rows Manifest} (h : Quiet deployment world) (tables : List Table) :
    Quiet deployment (world.write deployment tables) := by
  refine ⟨write_sound h.sound tables, ?_, ?_⟩
  · unfold World.write
    split
    · exact h.view
    · dsimp only
      split
      · simp only [h.view]
      · exact h.view
  · unfold World.write
    split
    · exact h.fenced
    · dsimp only
      split <;> exact h.fenced

section

variable [DecidableEq Manifest]

theorem step_quiet {world : World Rows Manifest} (hFaithful : deployment.Faithful) (h : Quiet deployment world)
    (event : Event) : Quiet deployment (world.step deployment event) := by
  cases event with
  | write tables => exact write_quiet h tables
  | command connection command schedule =>
      cases hJournal : world.journal with
      | none =>
          have hStep : world.step deployment (.command connection command schedule) = world := by
            simp only [World.step, hJournal]
          rw [hStep]
          exact h
      | some state =>
          have hStarted : Started deployment world.known state := ⟨hJournal, rfl, (h.sound.journal state hJournal).1⟩
          have hStep : world.step deployment (.command connection command schedule) =
              World.finish ((executeCommand deployment connection state command).run { world with schedule }) := by
            simp only [World.step, hJournal]
          rw [hStep]
          exact finish_quiet schedule h (executeCommand_holds hFaithful connection command hStarted)

theorem runAll_quiet {world : World Rows Manifest} (hFaithful : deployment.Faithful) (h : Quiet deployment world)
    (events : List Event) : Quiet deployment (world.runAll deployment events) := by
  induction events generalizing world with
  | nil => exact h
  | cons event rest ih => exact ih (step_quiet hFaithful h event)

end

/-- A cutover is planned for the live schema, with destinations of its own. -/
theorem plan_holds {knowledge : Knowledge Manifest} (connection : Connection) (target archive createdAt : String)
    (inherited : Option (Journal Manifest)) :
    Holds (Sound deployment) (At deployment knowledge)
      (plan deployment connection deployment.live target archive createdAt inherited) (Ended deployment) := by
  refine (refuseUnless_holds _ _).bind_fact fun _ _ => (refuseUnless_holds _ _).bind_fact fun _ hDistinct => ?_
  refine (refuseUnless_holds _ _).bind_fact fun _ _ => ?_
  refine Holds.bind (show Holds _ _ _ fun _ => At deployment knowledge from ?_) fun head => ?_
  · exact (contents_keeps knowledge _ _).bind fun schema => (demand_holds _ _).post fun _ _ hState => hState.1
  refine (refuseUnless_holds _ _).bind_fact fun _ _ => (refuseUnless_holds _ _).bind_fact fun _ _ => ?_
  refine (requireSchema_keeps knowledge _ _).bind fun _ => (refuseUnless_holds _ _).bind_fact fun _ hHead => ?_
  refine (look_keeps knowledge _).bind fun found => (look_keeps knowledge _).bind fun other => ?_
  refine (refuseUnless_holds _ _).bind_fact fun _ _ => ended_pure ?_ nofun
  refine ⟨rfl, Ne.symm hDistinct.1, Ne.symm hDistinct.2.1, ?_, nofun⟩
  rcases hHead with rfl | rfl
  · exact Or.inl ⟨rfl, rfl⟩
  · exact Or.inr ⟨rfl, rfl⟩

theorem start_quiet {world : World Rows Manifest} (connection : Connection) (target archive createdAt : String)
    (inherited : Option (Journal Manifest)) (schedule : List Moment) (h : Quiet deployment world) :
    Quiet deployment (world.start deployment connection target archive createdAt inherited schedule) :=
  finish_quiet schedule h ((plan_holds connection target archive createdAt inherited).bind fun state => conclude_holds state)

theorem initial_quiet {database : Database} {latest : Rows} (hLive : Current deployment database latest) (clock : Nat) :
    Quiet deployment (World.initial database latest clock : World Rows Manifest) := by
  refine ⟨⟨hLive, ?_, ?_⟩, rfl, rfl⟩
  · intro act hAct
    cases hAct
  · intro journal hJournal
    cases hJournal

/-- In every run of a cutover the live schema is complete and has the rows
written last, and every durable step neither exposes nor destroys unverified
data: whatever the commands, wherever they are interrupted, and whatever the
application writes while it is not fenced. -/
theorem cutover_safe [DecidableEq Manifest] (hFaithful : deployment.Faithful) {database : Database} {latest : Rows}
    (hLive : Current deployment database latest) (clock : Nat) (connection : Connection) (target archive createdAt : String)
    (inherited : Option (Journal Manifest)) (schedule : List Moment) (events : List Event) :
    let last := ((World.initial database latest clock).start deployment connection target archive createdAt inherited
      schedule).runAll deployment events
    Current deployment last.durable last.latest ∧ ∀ act ∈ last.history, act.Safe deployment := by
  intro last
  have hQuiet := runAll_quiet hFaithful
    (start_quiet connection target archive createdAt inherited schedule (initial_quiet hLive clock)) events
  exact ⟨hQuiet.sound.live, hQuiet.sound.history⟩

/-- The rows of the tables of a layout, under the old names. -/
def plainRows (tables : List Table) : List (List Row) :=
  legacyTables.map fun name =>
    ((tables.find? fun table => table.name == physical name .old || table.name == physical name .new).map (·.rows)).getD []

/-- A deployment whose evidence is the rows themselves. -/
def plainDeployment : Deployment (List (List Row)) (List (List Row)) where
  live := "qs_ai"
  definitions := fun _ _ => true
  precheck := fun _ _ => true
  manifest := fun _ tables => plainRows tables
  rowsOnly := id
  rows := plainRows
  revisions := [Head.old.revision, Head.intermediate.revision, Head.new.revision]
  upgrade := fun head schema => [{ schema with tables := (expectedTables head).map fun name =>
    ⟨name, true, "", if name = versionTable then [[("version_num", some head.revision)]] else [], none⟩ }]
  projected := fun _ tables name => ((tables.find? (·.name == name)).map (·.rows)).getD []
  suffix := fun _ createdAt => createdAt

/-- The live schema of the old layout, with one session. -/
def plainSchema : Schema where
  options := ("utf8mb4", "utf8mb4_0900_ai_ci")
  tables := (expectedTables .old).map fun name =>
    ⟨name, true, "", if name = versionTable then [[("version_num", some Head.old.revision)]]
      else if name = "interpretation_sessions" then [[("session_id", some "S1")]] else [], some 1⟩
  triggers := 0
  programs := 0
  referenced := 0

theorem cutover_safe_plain :
    let database : Database := fun name => if name = "qs_ai" then some plainSchema else none
    let last := ((World.initial database (plainRows plainSchema.tables) 0).start plainDeployment ⟨"server", "contract"⟩
      "ai_refactor_1" "ai_backup_1" "1" none []).runAll plainDeployment
        [.command ⟨"server", "contract"⟩ .prepare [], .write plainSchema.tables,
          .command ⟨"server", "contract"⟩ (.copy true 0) [⟨[], 1, false⟩, ⟨[], 1, true⟩],
          .command ⟨"server", "contract"⟩ (.copy true 0) [], .command ⟨"server", "contract"⟩ (.verify true) [],
          .command ⟨"server", "contract"⟩ (.switch true) [], .command ⟨"server", "contract"⟩ (.rollback true 0 true) [],
          .command ⟨"server", "contract"⟩ .cleanup [⟨[], retentionSeconds, false⟩]]
    Current plainDeployment last.durable last.latest ∧ ∀ act ∈ last.history, act.Safe plainDeployment :=
  cutover_safe (fun _ _ _ _ hSame => hSame) ⟨plainSchema, rfl, by decide +kernel, rfl⟩ 0 _ _ _ _ _ _ _

end SchemaRefactor

end QsAi
