import QsAi.Maintenance.Cutover

/-! The exchange of tables, which a switch and a rollback end with. -/
namespace QsAi

namespace SchemaRefactor

open Interrupted

variable {Rows Manifest : Type} {deployment : Deployment Rows Manifest}

theorem exchangeTables_source {db : Database} {source target archive : String} {current incoming kept : Schema}
    (hSource : db source = some current) (hTarget : db target = some incoming) (hArchive : db archive = some kept)
    (hName : target ≠ source) :
    exchangeTables source target archive db source = some { current with tables := incoming.tables } := by
  simp only [exchangeTables, hSource, hTarget, hArchive]
  rw [Database.set_other (Ne.symm hName), Database.set_same]

/-- In a fenced deployment without uncommitted rows every schema is known. -/
theorem At.all {knowledge : Knowledge Manifest} {world : World Rows Manifest} (h : At deployment knowledge.clean world)
    (hFenced : knowledge.fenced = true) : world.durable = knowledge.view ∧ world.view = knowledge.view := by
  have hView : world.view = knowledge.view := funext fun name => h.view name (Or.inr hFenced)
  exact ⟨(funext fun name => h.clean_durable name).trans hView, hView⟩

/-- What makes an exchange safe: the incoming tables are complete and have the
evidence of the current ones. -/
structure Matched (deployment : Deployment Rows Manifest) (knowledge : Knowledge Manifest) (journal : Journal Manifest)
    (target : String) (head : Head) : Prop where
  fenced : knowledge.fenced = true
  saved : knowledge.journal = some journal
  apart : target ≠ deployment.live
  known : head = .old ∨ head = .new
  tables : ∃ version current incoming, knowledge.view deployment.live = some current ∧
    knowledge.view target = some incoming ∧ deployment.layout head incoming.tables = true ∧
    deployment.manifest version current.tables = deployment.manifest head incoming.tables ∧
    (journal.Reversing ∨ journal.sourceManifest = some (deployment.manifest version current.tables))
  fast : journal.phase = .rollbackPending → ∀ plan ∈ journal.rollback, plan.mode = .fast → head ≠ journal.targetHead

theorem exchange_sound {knowledge : Knowledge Manifest} {journal : Journal Manifest} {target archive : String} {head : Head}
    (hFaithful : deployment.Faithful) (hMatched : Matched deployment knowledge journal target head) {kept : Schema}
    (hKept : knowledge.view archive = some kept) {world : World Rows Manifest} (hSound : Sound deployment world)
    (hAt : At deployment knowledge.clean world) :
    Sound deployment { world with
      durable := exchangeTables deployment.live target archive world.durable
      view := exchangeTables deployment.live target archive world.view } := by
  obtain ⟨hDurable, hView⟩ := hAt.all hMatched.fenced
  obtain ⟨version, current, incoming, hCurrent, hIncoming, hLayout, hSame, -⟩ := hMatched.tables
  obtain ⟨live, hLive, hComplete, hRows⟩ := hSound.live
  rw [hDurable] at hLive
  obtain rfl := Option.some.inj (hLive.symm.trans hCurrent)
  have hNext := exchangeTables_source hCurrent hIncoming hKept hMatched.apart
  refine ⟨⟨_, by rw [hDurable]; exact hNext, complete_exchange hMatched.known hComplete hLayout, ?_⟩, hSound.history, ?_⟩
  · exact (hFaithful _ _ _ _ hSame.symm).trans hRows
  · intro saved hSaved
    obtain ⟨hProper, -⟩ := hSound.journal saved hSaved
    refine ⟨hProper, ?_⟩
    intro hPhase plan hPlan hFast schema hSchema hHead
    have hJournal : saved = journal := by
      have hKnown := hAt.journal.symm.trans hSaved
      exact (Option.some.inj (hMatched.saved.symm.trans hKnown)).symm
    subst hJournal
    rw [hDurable] at hSchema
    obtain rfl := Option.some.inj (hNext.symm.trans hSchema)
    have hFound : some head = some saved.targetHead := (layout_head hLayout).symm.trans hHead
    exact absurd (Option.some.inj hFound) (hMatched.fast hPhase plan hPlan hFast)

theorem exchange_holds {knowledge : Knowledge Manifest} {journal : Journal Manifest} {target : String} {head : Head}
    (hFaithful : deployment.Faithful) (archive : String) (hMatched : Matched deployment knowledge journal target head) :
    Holds (Sound deployment) (At deployment knowledge) (exchange deployment deployment.live target archive) fun _ world =>
      ∃ next, At deployment next world ∧ next.journal = some journal ∧ next.dirty = none := by
  have hKnown : ∀ name, name ≠ deployment.live ∨ knowledge.fenced = true := fun _ => Or.inr hMatched.fenced
  refine (tablesOf_holds (hKnown archive)).bind_fact fun names hNames => (refuseUnless_holds _ _).bind_fact fun _ hEmpty => ?_
  refine (look_keeps knowledge _).bind fun old => (look_keeps knowledge _).bind fun new => ?_
  refine (refuseUnless_holds _ _).bind_fact fun _ _ => (contents_holds (hKnown archive) _).bind_fact fun kept hKept => ?_
  have hBlank : kept.tables = [] := by
    rw [hKept, hEmpty] at hNames
    simpa [tableNames] using hNames.symm
  let next : Knowledge Manifest :=
    ⟨exchangeTables deployment.live target archive knowledge.view, knowledge.journal, true, none, knowledge.now⟩
  refine (show Holds _ _ _ fun _ => At deployment next from define_holds ?_ ?_).post fun _ world hAt =>
    ⟨next, hAt, hMatched.saved, rfl⟩
  · intro world hSound hAt
    obtain ⟨hDurable, hView⟩ := hAt.all hMatched.fenced
    obtain ⟨version, current, incoming, hCurrent, hIncoming, hLayout, hSame, hOriginal⟩ := hMatched.tables
    refine ⟨hSound.live, rfl, journal, current, incoming, kept, head, version, hAt.journal.trans hMatched.saved, ?_, ?_, ?_,
      hBlank, hMatched.known, hLayout, hFaithful _ _ _ _ hSame.symm, hOriginal⟩
    · exact hDurable ▸ hCurrent
    · exact hDurable ▸ hIncoming
    · exact hDurable ▸ hKept
  · intro world hSound hAt
    refine ⟨exchange_sound hFaithful hMatched hKept hSound hAt, ?_⟩
    obtain ⟨hDurable, hView⟩ := hAt.all hMatched.fenced
    refine ⟨?_, hAt.journal, hAt.fenced.trans hMatched.fenced, ?_, by simp [next], hAt.now⟩
    · intro name _
      rw [hView]
    · intro name _
      rw [hView, hDurable]

theorem exchangeBeforeDeadline_holds {knowledge : Knowledge Manifest} {journal : Journal Manifest} {source target : String}
    {head : Head} (hFaithful : deployment.Faithful) (archive : String) (stoppedAt : Nat) (hSource : source = deployment.live)
    (hMatched : Matched deployment knowledge journal target head) :
    Holds (Sound deployment) (At deployment knowledge) (exchangeBeforeDeadline deployment source target archive stoppedAt)
      fun _ world => ∃ next, At deployment next world ∧ next.journal = some journal ∧ next.dirty = none := by
  subst hSource
  exact (deadline_holds knowledge _).bind fun _ => (deadline_holds knowledge _).bind fun _ =>
    exchange_holds hFaithful archive hMatched

/-- An exchange that happened left a complete archive. -/
theorem exchanged_holds {knowledge : Knowledge Manifest} {state : Journal Manifest} (hFenced : knowledge.fenced = true) :
    Holds (Sound deployment) (At deployment knowledge) (exchanged deployment state) fun done world =>
      At deployment knowledge world ∧ (done = true → knowledge.Holding deployment state.sourceHead state.archive) := by
  refine (look_keeps knowledge _).bind fun names => (refuseUnless_holds _ _).bind_fact fun _ _ => ?_
  refine (headOfSchema_holds (Or.inr hFenced)).bind_fact fun head _ => Holds.ite ?_ ?_
  · intro _
    refine (requireSchema_keeps knowledge _ _).bind fun _ => ?_
    refine (requireSchema_holds (Or.inr hFenced) _).bind_fact fun _ hHolding => ?_
    refine (look_keeps knowledge _).bind fun staging => (refuseUnless_holds _ _).bind_fact fun _ _ => ?_
    exact holds_pure fun world hAt => ⟨hAt, fun _ => hHolding⟩
  · intro _
    exact (refuseUnless_holds _ _).bind_fact fun _ _ => holds_pure fun world hAt => ⟨hAt, nofun⟩

theorem now_keeps (knowledge : Knowledge Manifest) :
    Holds (Sound deployment) (At deployment knowledge) (now deployment) fun _ => At deployment knowledge :=
  look_keeps knowledge _

/-! Recording an archive changes neither the phase nor the constants. -/

@[simp] theorem retained_constants (state : Journal Manifest) (schema : String) (head : Head) (evidence : Manifest) (since : Nat) :
    (retained state schema head evidence since).phase = state.phase ∧
      (retained state schema head evidence since).source = state.source ∧
      (retained state schema head evidence since).target = state.target ∧
      (retained state schema head evidence since).archive = state.archive ∧
      (retained state schema head evidence since).sourceHead = state.sourceHead ∧
      (retained state schema head evidence since).targetHead = state.targetHead ∧
      (retained state schema head evidence since).rollback = state.rollback ∧
      (retained state schema head evidence since).sourceManifest = state.sourceManifest := by
  unfold retained
  split <;> exact ⟨rfl, rfl, rfl, rfl, rfl, rfl, rfl, rfl⟩

theorem Journal.Proper.retained {state : Journal Manifest} (h : state.Proper deployment) (schema : String) (head : Head)
    (evidence : Manifest) (since : Nat) : (retained state schema head evidence since).Proper deployment := by
  obtain ⟨hPhase, hSource, hTarget, hArchive, hOld, hNew, hRollback, hManifest⟩ :=
    retained_constants state schema head evidence since
  refine ⟨hSource ▸ h.source, hTarget ▸ h.target, hArchive ▸ h.archive, by rw [hOld, hNew]; exact h.heads, ?_⟩
  rw [hPhase, hRollback, hArchive, hManifest]
  exact h.fast

/-- The head of a proper journal's target is one that an application runs on. -/
theorem Journal.Proper.targetHead {state : Journal Manifest} (h : state.Proper deployment) :
    state.targetHead = .old ∨ state.targetHead = .new := by
  rcases h.heads with ⟨-, hHead⟩ | ⟨-, hHead⟩
  · exact Or.inr hHead
  · exact Or.inl hHead

theorem Journal.Proper.sourceHead {state : Journal Manifest} (h : state.Proper deployment) :
    (state.sourceHead = .old ∨ state.sourceHead = .new) ∧ state.sourceHead ≠ state.targetHead := by
  rcases h.heads with ⟨hOld, hNew⟩ | ⟨hNew, hOld⟩
  · exact ⟨Or.inl hOld, by rw [hOld, hNew]; exact nofun⟩
  · exact ⟨Or.inr hNew, by rw [hOld, hNew]; exact nofun⟩

variable [DecidableEq Manifest]

/-! The switch. -/

theorem switchTables_holds {knowledge : Knowledge Manifest} {state : Journal Manifest} (hFaithful : deployment.Faithful)
    (connection : Connection) (stopped done : Bool) (hStarted : Started deployment knowledge state)
    (hPhase : state.phase ≠ .rollbackPending) :
    Holds (Sound deployment) (At deployment knowledge) (switchTables deployment connection state stopped done)
      fun result world => ∃ next, At deployment next world ∧ Started deployment next result ∧ result.phase ≠ .rollbackPending := by
  refine Holds.ite (fun _ => holds_pure fun world hAt => ⟨knowledge, hAt, hStarted, hPhase⟩) ?_
  intro _
  refine Holds.bind_exists (verified_holds connection stopped hStarted) fun result found hFound => ?_
  obtain ⟨hVerified, rfl⟩ := hFound
  have hProper : Journal.Proper deployment { state with phase := Phase.switchPending } :=
    hStarted.proper.advance rfl rfl rfl ⟨rfl, rfl⟩ (by simp)
  refine (save_advanced hVerified.started.clean hProper (by simp)).bind fun _ => (demand_holds _ _).bind_fact fun stop _ => ?_
  obtain ⟨current, incoming, hCurrent, hIncoming, hConforms, hSame, hManifest⟩ := hVerified.tables
  have hLayout : deployment.layout state.targetHead incoming.tables = true := by
    simp only [Deployment.conforms, Bool.and_eq_true] at hConforms
    exact hConforms.1.1
  have hMatched : Matched deployment { found with journal := some { state with phase := Phase.switchPending } }
      { state with phase := Phase.switchPending } state.target state.targetHead :=
    ⟨hVerified.fenced, rfl, hProper.target, hProper.targetHead,
      ⟨state.sourceHead, current, incoming, hProper.source ▸ hCurrent, hIncoming, hLayout, hSame, Or.inr hManifest⟩, by simp⟩
  refine Holds.bind_exists (exchangeBeforeDeadline_holds hFaithful state.archive stop hProper.source hMatched)
    fun _ next hNext => holds_pure fun world hAt => ?_
  exact ⟨next, hAt, ⟨hNext.1, hNext.2, hProper⟩, by simp⟩

theorem completeSwitch_holds {knowledge : Knowledge Manifest} {state : Journal Manifest}
    (hStarted : Started deployment knowledge state) :
    Holds (Sound deployment) (At deployment knowledge) (completeSwitch deployment state) (Ended deployment) := by
  refine (requireSchema_keeps knowledge _ _).bind fun _ => (requireSchema_keeps knowledge _ _).bind fun _ => ?_
  refine (look_keeps knowledge _).bind fun staging => (refuseUnless_holds _ _).bind_fact fun _ _ => ?_
  refine (manifest_keeps knowledge _ _).bind fun source => (manifest_keeps knowledge _ _).bind fun archive => ?_
  refine (refuseUnless_holds _ _).bind_fact fun _ _ => (now_keeps knowledge).bind fun current => ?_
  have hProper : Journal.Proper deployment { state with
      phase := Phase.switched, switchedAt := some (state.switchedAt.getD current), runtimeMayHaveWritten := true } :=
    hStarted.proper.advance rfl rfl rfl ⟨rfl, rfl⟩ nofun
  have hKept := hProper.retained state.archive state.sourceHead source (state.switchedAt.getD current)
  have hPhase : (retained { state with
      phase := Phase.switched, switchedAt := some (state.switchedAt.getD current), runtimeMayHaveWritten := true }
      state.archive state.sourceHead source (state.switchedAt.getD current)).phase ≠ .rollbackPending := by
    rw [(retained_constants _ _ _ _ _).1]
    exact nofun
  exact (save_advanced hStarted.clean hKept hPhase).bind fun _ => ended_pure hKept hPhase

theorem switch_holds {knowledge : Knowledge Manifest} {state : Journal Manifest} (hFaithful : deployment.Faithful)
    (connection : Connection) (stopped : Bool) (hStarted : Started deployment knowledge state) :
    Holds (Sound deployment) (At deployment knowledge) (switch deployment connection state stopped) (Ended deployment) := by
  refine (binding_holds knowledge connection state).bind fun _ => (refuseUnless_holds _ _).bind_fact fun _ hPhase => ?_
  have hOther : state.phase ≠ .rollbackPending := by
    rintro hPending
    simp [hPending] at hPhase
  refine Holds.fence hStarted fun found hFound hFenced _ => ?_
  refine (exchanged_holds hFenced).bind_fact fun done _ => Holds.ite ?_ ?_
  · intro _
    exact (refuseUnless_holds _ _).bind_fact fun _ _ => ended_pure hFound.proper hOther
  · intro _
    refine Holds.bind_exists (switchTables_holds hFaithful connection stopped done hFound hOther) fun result next hNext => ?_
    exact completeSwitch_holds hNext.1

end SchemaRefactor

end QsAi
