import QsAi.Maintenance.Steps

/-! The commands keep a cutover safe. -/
namespace QsAi

namespace SchemaRefactor

open Interrupted

variable {Rows Manifest : Type} {deployment : Deployment Rows Manifest}

theorem binding_holds (knowledge : Knowledge Manifest) (connection : Connection) (state : Journal Manifest) :
    Holds (Sound deployment) (At deployment knowledge) (binding deployment connection state) fun _ => At deployment knowledge :=
  (moment_holds knowledge).bind fun _ => (refuseUnless_holds _ _).bind_fact fun _ _ =>
    (refuseUnless_holds _ _).post fun _ _ hState => hState.1

theorem owned_holds {inv condition : World Rows Manifest → Prop} (state : Journal Manifest) (schema : String) :
    Holds inv condition (owned state schema) fun _ world =>
      condition world ∧ schema ≠ state.source ∧ schema ∈ state.ownedSchemas := by
  refine (refuseUnless_holds _ _).bind_fact fun _ _ => (refuseUnless_holds _ _).bind_fact fun _ hOwned => ?_
  exact (refuseUnless_holds _ _).post fun _ _ hState => ⟨hState.1, hOwned⟩

/-! Destinations. -/

theorem missing {schema : Option Schema} {found : Bool} (hFound : found = schema.isSome) (h : ¬ found = true) :
    schema = none := by
  rw [hFound] at h
  exact Option.not_isSome_iff_eq_none.mp h

/-- A schema was worked on, the others were not. -/
def Worked (deployment : Deployment Rows Manifest) (name : String) (knowledge : Knowledge Manifest)
    (fact : Knowledge Manifest → Prop) (world : World Rows Manifest) : Prop :=
  ∃ next, At deployment next world ∧ Knowledge.Beside name knowledge next ∧ (knowledge.dirty = none → next.dirty = none) ∧
    fact next

theorem worked_self {name : String} {knowledge : Knowledge Manifest} {fact : Knowledge Manifest → Prop}
    {world : World Rows Manifest} (h : At deployment knowledge world) (hFact : fact knowledge) :
    Worked deployment name knowledge fact world :=
  ⟨knowledge, h, Knowledge.Beside.refl _ _, fun hClean => hClean, hFact⟩

/-- Work on a schema goes on with more work on it. -/
theorem Holds.worked {α β : Type} {name : String} {knowledge : Knowledge Manifest} {fact other : Knowledge Manifest → Prop}
    {first : Maintenance Rows Manifest α} {next : α → Maintenance Rows Manifest β} {before : World Rows Manifest → Prop}
    (hFirst : Holds (Sound deployment) before first fun _ => Worked deployment name knowledge fact)
    (hNext : ∀ value found, Knowledge.Beside name knowledge found → fact found →
      Holds (Sound deployment) (At deployment found) (next value) fun _ => Worked deployment name found other) :
    Holds (Sound deployment) before (first >>= next) fun _ => Worked deployment name knowledge other := by
  refine Holds.bind_exists hFirst fun value found hFound => ?_
  obtain ⟨hBeside, hClean, hFact⟩ := hFound
  refine (hNext value found hBeside hFact).post ?_
  rintro _ world ⟨last, hAt, hLater, hLast, hOther⟩
  exact ⟨last, hAt, hBeside.trans hLater, fun hNone => hLast (hClean hNone), hOther⟩

theorem createSchema_holds {knowledge : Knowledge Manifest} {name : String} (source : String) (hName : name ≠ deployment.live)
    (hNone : knowledge.view name = none) :
    Holds (Sound deployment) (At deployment knowledge) (createSchema deployment name source) fun _ =>
      Worked deployment name knowledge fun _ => True := by
  refine (contents_keeps knowledge _ _).bind fun schema => (create_holds hName hNone _).post ?_
  intro _ world hAt
  exact ⟨_, hAt, Knowledge.set_beside _ _ _, fun _ => rfl, trivial⟩

theorem emptyArchive_holds {knowledge : Knowledge Manifest} {state : Journal Manifest} (hSource : state.source = deployment.live)
    (schema : String) :
    Holds (Sound deployment) (At deployment knowledge) (emptyArchive deployment state schema) fun _ =>
      Worked deployment schema knowledge fun _ => schema ≠ deployment.live := by
  refine (owned_holds state schema).bind_fact fun _ hOwned => ?_
  have hName : schema ≠ deployment.live := hSource ▸ hOwned.1
  refine (existsSchema_holds (Or.inl hName)).bind_fact fun found hFound => Holds.ite ?_ ?_
  · intro _
    refine (look_keeps knowledge _).bind fun names => (refuseUnless_holds _ _).bind_fact fun _ _ => ?_
    refine (contents_keeps knowledge _ _).bind fun archive => (contents_keeps knowledge _ _).bind fun source => ?_
    refine (refuseUnless_holds _ _).post ?_
    rintro _ world ⟨hAt, -⟩
    exact worked_self hAt hName
  · intro hMissing
    refine (createSchema_holds _ hName (missing hFound hMissing)).post ?_
    rintro _ world ⟨next, hAt, hBeside, hClean, -⟩
    exact ⟨next, hAt, hBeside, hClean, hName⟩

theorem alterAll_holds {knowledge : Knowledge Manifest} {name : String} (hName : name ≠ deployment.live)
    (hApart : Apart knowledge.journal name) (schemas : List Schema) :
    Holds (Sound deployment) (At deployment knowledge) (alterAll deployment name schemas) fun _ =>
      Worked deployment name knowledge fun _ => True := by
  induction schemas generalizing knowledge with
  | nil => exact holds_pure fun _ hAt => worked_self hAt trivial
  | cons schema rest ih =>
      refine Holds.worked (show Holds _ _ _ fun _ => Worked _ _ _ fun _ => True from (alter_holds hName hApart schema).post ?_) ?_
      · intro _ world hAt
        exact ⟨_, hAt, Knowledge.set_beside _ _ _, fun _ => rfl, trivial⟩
      · intro _ found hBeside _
        exact ih (hBeside.journal ▸ hApart)

theorem openIsolated_holds {knowledge : Knowledge Manifest} {name : String} (source : String)
    (hName : name ≠ deployment.live) :
    Holds (Sound deployment) (At deployment knowledge) (openIsolated deployment name source) fun _ =>
      Worked deployment name knowledge fun _ => True := by
  refine (existsSchema_holds (Or.inl hName)).bind_fact fun found hFound => Holds.ite ?_ ?_
  · intro _
    refine (headOfSchema_holds (Or.inl hName)).bind_fact fun head _ => ?_
    refine (requireSchema_keeps knowledge head name).bind fun _ => ?_
    refine (look_keeps knowledge _).bind fun clean => (refuseUnless_holds _ _).post ?_
    rintro _ world ⟨hAt, -⟩
    exact worked_self hAt trivial
  · intro hMissing
    exact createSchema_holds source hName (missing hFound hMissing)

theorem upgradeIsolated_holds {knowledge : Knowledge Manifest} {name : String} (head : Head) (source : String)
    (hName : name ≠ deployment.live) (hApart : Apart knowledge.journal name) :
    Holds (Sound deployment) (At deployment knowledge) (upgradeIsolated deployment name head source) fun _ =>
      Worked deployment name knowledge fun next =>
        ∃ schema, next.view name = some schema ∧ deployment.conforms head schema = true := by
  refine Holds.worked (openIsolated_holds source hName) fun _ opened hOpened _ => ?_
  refine (contents_keeps opened _ _).bind fun schema => ?_
  refine Holds.worked (alterAll_holds hName (hOpened.journal ▸ hApart) _) fun _ altered _ _ => ?_
  refine (requireSchema_holds (Or.inl hName) head).post ?_
  rintro _ world ⟨hAt, hConforms⟩
  exact worked_self hAt hConforms

/-- What is known of a journal that is saved as it is. -/
structure Saved (deployment : Deployment Rows Manifest) (knowledge : Knowledge Manifest) (state : Journal Manifest) : Prop where
  journal : knowledge.journal = some state
  source : state.source = deployment.live

theorem Saved.beside {knowledge next : Knowledge Manifest} {state : Journal Manifest} {name : String}
    (h : Saved deployment knowledge state) (hBeside : Knowledge.Beside name knowledge next) : Saved deployment next state :=
  ⟨hBeside.journal.trans h.journal, h.source⟩

theorem discardPristineOwned_holds {knowledge : Knowledge Manifest} {state : Journal Manifest} {name : String}
    (hSaved : Saved deployment knowledge state) (hApart : Apart knowledge.journal name) :
    Holds (Sound deployment) (At deployment knowledge) (discardPristineOwned deployment state name) fun _ =>
      Worked deployment name knowledge fun _ => True := by
  refine (owned_holds state name).bind_fact fun _ hOwned => ?_
  have hName : name ≠ deployment.live := hSaved.source ▸ hOwned.1
  refine (contents_keeps knowledge _ _).bind fun source => ?_
  refine (contents_holds (Or.inl hName) _).bind_fact fun schema hSchema => ?_
  refine (refuseUnless_holds _ _).bind_fact fun _ hPristine => ?_
  refine (drop_holds hName hApart hSaved.journal hOwned.2 hSchema (Or.inl ⟨_, hPristine⟩)).post ?_
  intro _ world hAt
  exact ⟨_, hAt, Knowledge.set_beside _ _ _, fun _ => rfl, trivial⟩

theorem clearIsolated_holds {knowledge : Knowledge Manifest} {state : Journal Manifest} {name : String} (head : Head)
    (hSaved : Saved deployment knowledge state) (hApart : Apart knowledge.journal name) :
    Holds (Sound deployment) (At deployment knowledge) (clearIsolated deployment state name head) fun _ =>
      Worked deployment name knowledge fun _ => True := by
  refine (look_keeps knowledge _).bind fun found => Holds.ite ?_ fun _ => holds_pure fun _ hAt => worked_self hAt trivial
  intro _
  refine (look_keeps knowledge _).bind fun conforms => Holds.ite ?_ fun _ => discardPristineOwned_holds hSaved hApart
  intro _
  refine (look_keeps knowledge _).bind fun clean => (refuseUnless_holds _ _).post ?_
  rintro _ world ⟨hAt, -⟩
  exact worked_self hAt trivial

theorem resumeIsolated_holds {knowledge : Knowledge Manifest} {state : Journal Manifest} {name : String} (head : Head)
    (source : String) (hSaved : Saved deployment knowledge state) (hApart : Apart knowledge.journal name) :
    Holds (Sound deployment) (At deployment knowledge) (resumeIsolated deployment state name head source) fun _ =>
      Worked deployment name knowledge fun next =>
        ∃ schema, next.view name = some schema ∧ deployment.conforms head schema = true := by
  refine (owned_holds state name).bind_fact fun _ hOwned => ?_
  have hName : name ≠ deployment.live := hSaved.source ▸ hOwned.1
  refine Holds.worked (clearIsolated_holds head hSaved hApart) fun _ cleared hCleared _ => ?_
  exact upgradeIsolated_holds head source hName (hCleared.journal ▸ hApart)

/-- A schema conforms to a layout. -/
def Knowledge.Holding (deployment : Deployment Rows Manifest) (knowledge : Knowledge Manifest) (head : Head) (name : String) :
    Prop :=
  ∃ schema, knowledge.view name = some schema ∧ deployment.conforms head schema = true

theorem apart_of_phase {knowledge : Knowledge Manifest} {state : Journal Manifest} (hJournal : knowledge.journal = some state)
    (hPhase : state.phase ≠ .rollbackPending) (name : String) : Apart knowledge.journal name := by
  intro saved hSaved hPending
  obtain rfl := Option.some.inj (hJournal.symm.trans hSaved)
  exact absurd hPending hPhase

/-! Copying. -/

theorem alignCounter_holds {knowledge : Knowledge Manifest} {target : String} {head : Head} (source : String)
    (sourceHead : Head) (old : String) (hName : target ≠ deployment.live) (hApart : Apart knowledge.journal target)
    (hHolding : knowledge.Holding deployment head target) :
    Holds (Sound deployment) (At deployment knowledge) (alignCounter deployment source target sourceHead head old) fun _ =>
      Worked deployment target knowledge fun next => next.Holding deployment head target := by
  refine (contents_keeps knowledge _ _).bind fun current => ?_
  refine (contents_holds (Or.inl hName) _).bind_fact fun incoming hIncoming => ?_
  refine (demand_holds _ _).bind_fact fun value _ => Holds.ite ?_ ?_
  · intro _
    exact holds_pure fun _ hAt => worked_self hAt hHolding
  · intro _
    refine (alter_holds hName hApart _).post ?_
    intro _ world hAt
    refine ⟨_, hAt, Knowledge.set_beside _ _ _, fun _ => rfl, _, Database.set_same _ _ _, ?_⟩
    obtain ⟨schema, hSchema, hConforms⟩ := hHolding
    obtain rfl := Option.some.inj (hSchema.symm.trans hIncoming)
    simp only [Deployment.conforms, Bool.and_eq_true, beq_iff_eq] at hConforms ⊢
    exact ⟨⟨setCounter_layout _ _ hConforms.1.1, hConforms.1.2⟩, hConforms.2⟩

theorem alignCounters_holds {knowledge : Knowledge Manifest} {target : String} {head : Head} (source : String)
    (sourceHead : Head) (names : List String) (hName : target ≠ deployment.live) (hApart : Apart knowledge.journal target)
    (hHolding : knowledge.Holding deployment head target) :
    Holds (Sound deployment) (At deployment knowledge) (alignCounters deployment source target sourceHead head names) fun _ =>
      Worked deployment target knowledge fun next => next.Holding deployment head target := by
  induction names generalizing knowledge with
  | nil => exact holds_pure fun _ hAt => worked_self hAt hHolding
  | cons name rest ih =>
      refine Holds.worked (alignCounter_holds source sourceHead name hName hApart hHolding) ?_
      intro _ found hBeside hFound
      exact ih (hBeside.journal ▸ hApart) hFound

/-- A filled schema keeps its layout; its rows can be uncommitted. -/
def Filled (deployment : Deployment Rows Manifest) (name : String) (head : Head) (knowledge : Knowledge Manifest)
    (world : World Rows Manifest) : Prop :=
  ∃ next, At deployment next world ∧ Knowledge.Beside name knowledge next ∧ next.Holding deployment head name

theorem copyData_holds {knowledge : Knowledge Manifest} {target : String} {head : Head} (source : String) (sourceHead : Head)
    (hName : target ≠ deployment.live) (hApart : Apart knowledge.journal target) (hClean : knowledge.dirty = none)
    (hHolding : knowledge.Holding deployment head target) :
    Holds (Sound deployment) (At deployment knowledge) (copyData deployment source target sourceHead head) fun _ =>
      Filled deployment target head knowledge := by
  refine (refuseUnless_holds _ _).bind_fact fun _ _ => (contents_keeps knowledge _ _).bind fun current => ?_
  refine (refuseUnless_holds _ _).bind_fact fun _ _ => ?_
  refine (contents_holds (Or.inl hName) _).bind_fact fun incoming hIncoming => ?_
  refine (refuseUnless_holds _ _).bind_fact fun _ _ => (stage_holds hName hApart hClean _).bind fun _ => ?_
  have hFilled : (knowledge.stage target { incoming with
      tables := fill (deployment.projected sourceHead current.tables) incoming.tables }).Holding deployment head target := by
    refine ⟨_, Database.set_same _ _ _, ?_⟩
    obtain ⟨schema, hSchema, hConforms⟩ := hHolding
    obtain rfl := Option.some.inj (hSchema.symm.trans hIncoming)
    simp only [Deployment.conforms, Bool.and_eq_true, beq_iff_eq] at hConforms ⊢
    exact ⟨⟨fill_layout _ hConforms.1.1, hConforms.1.2⟩, hConforms.2⟩
  refine (alignCounters_holds source sourceHead autoIncrementTables hName ?_ hFilled).post ?_
  · exact hApart
  · rintro _ world ⟨next, hAt, hBeside, -, hNext⟩
    exact ⟨next, hAt, (knowledge.stage_beside _ _).trans hBeside, hNext⟩

theorem manifest_keeps (knowledge : Knowledge Manifest) (name : String) (head : Head) :
    Holds (Sound deployment) (At deployment knowledge) (manifest deployment name head) fun _ => At deployment knowledge :=
  (contents_keeps knowledge _ _).bind fun _ => (refuseUnless_holds _ _).bind_fact fun _ _ => holds_pure fun _ hAt => hAt

section

variable [DecidableEq Manifest]

theorem verify_keeps (knowledge : Knowledge Manifest) (source target : String) (sourceHead targetHead : Head)
    (counters : Bool) :
    Holds (Sound deployment) (At deployment knowledge) (verify deployment source target sourceHead targetHead counters)
      fun _ => At deployment knowledge :=
  (manifest_keeps knowledge _ _).bind fun _ => (manifest_keeps knowledge _ _).bind fun _ =>
    (refuseUnless_holds _ _).bind_fact fun _ _ => holds_pure fun _ hAt => hAt

/-- Both schemas have the evidence that is returned. -/
theorem verify_holds {knowledge : Knowledge Manifest} {source target : String} (sourceHead targetHead : Head)
    (hFenced : knowledge.fenced = true) :
    Holds (Sound deployment) (At deployment knowledge) (verify deployment source target sourceHead targetHead true)
      fun evidence world => At deployment knowledge world ∧ ∃ current incoming, knowledge.view source = some current ∧
        knowledge.view target = some incoming ∧ evidence = deployment.manifest sourceHead current.tables ∧
        evidence = deployment.manifest targetHead incoming.tables := by
  refine (manifest_holds (Or.inr hFenced) sourceHead).bind_fact fun before hBefore => ?_
  refine (manifest_holds (Or.inr hFenced) targetHead).bind_fact fun after hAfter => ?_
  refine (refuseUnless_holds _ _).bind_fact fun _ hSame => holds_pure fun world hAt => ?_
  obtain ⟨current, hCurrent, rfl⟩ := hBefore
  obtain ⟨incoming, hIncoming, rfl⟩ := hAfter
  exact ⟨hAt, current, incoming, hCurrent, hIncoming, rfl, hSame⟩

/-- Work on a target after which it still conforms. -/
theorem fillTarget_holds {knowledge : Knowledge Manifest} {state : Journal Manifest} (hName : state.target ≠ deployment.live)
    (hApart : Apart knowledge.journal state.target) (hClean : knowledge.dirty = none)
    (hHolding : knowledge.Holding deployment state.targetHead state.target) :
    Holds (Sound deployment) (At deployment knowledge) (fillTarget deployment state) fun _ =>
      Filled deployment state.target state.targetHead knowledge := by
  refine (look_keeps knowledge _).bind fun clean => Holds.ite ?_ ?_
  · intro _
    exact copyData_holds state.source state.sourceHead hName hApart hClean hHolding
  · intro _
    refine (verify_keeps knowledge _ _ _ _ _).bind fun _ => ?_
    refine Holds.bind_exists (alignCounters_holds state.source state.sourceHead _ hName hApart hHolding) fun _ next hNext => ?_
    refine (verify_keeps next _ _ _ _ _).bind fun _ => holds_pure fun world hAt => ?_
    exact ⟨next, hAt, hNext.1, hNext.2.2⟩

end

/-! The commands. -/

/-- A journal that moved on in the same cutover. -/
theorem Journal.Proper.advance {state next : Journal Manifest} (h : state.Proper deployment) (hSource : next.source = state.source)
    (hTarget : next.target = state.target) (hArchive : next.archive = state.archive)
    (hHeads : next.sourceHead = state.sourceHead ∧ next.targetHead = state.targetHead)
    (hPhase : next.phase ≠ .rollbackPending) : next.Proper deployment where
  source := hSource.trans h.source
  target := hTarget ▸ h.target
  archive := hArchive ▸ h.archive
  heads := by
    rw [hHeads.1, hHeads.2]
    exact h.heads
  fast hPending := absurd hPending hPhase

/-- A command ended with a journal to save. -/
def Ended (deployment : Deployment Rows Manifest) (state : Journal Manifest) (world : World Rows Manifest) : Prop :=
  ∃ next, At deployment next world ∧ state.Proper deployment ∧ state.phase ≠ .rollbackPending

theorem ended_pure {knowledge : Knowledge Manifest} {state : Journal Manifest} (hProper : state.Proper deployment)
    (hPhase : state.phase ≠ .rollbackPending) :
    Holds (Sound deployment) (At deployment knowledge) (pure state : Maintenance Rows Manifest (Journal Manifest))
      (Ended deployment) :=
  holds_pure fun _ hAt => ⟨knowledge, hAt, hProper, hPhase⟩

/-- A journal outside of a pending rollback is saved. -/
theorem save_advanced {knowledge : Knowledge Manifest} {state : Journal Manifest} (hClean : knowledge.dirty = none)
    (hProper : state.Proper deployment) (hPhase : state.phase ≠ .rollbackPending) :
    Holds (Sound deployment) (At deployment knowledge) (save deployment state) fun _ =>
      At deployment { knowledge with journal := some state } :=
  save_holds hClean hProper fun _ _ hPending => absurd hPending hPhase

/-- What a command starts from, and keeps while it advances the journal. -/
structure Started (deployment : Deployment Rows Manifest) (knowledge : Knowledge Manifest) (state : Journal Manifest) : Prop where
  journal : knowledge.journal = some state
  clean : knowledge.dirty = none
  proper : state.Proper deployment

theorem sameStop_holds {inv condition : World Rows Manifest → Prop} (original : Option Nat) (supplied : Nat) :
    Holds inv condition (sameStop original supplied) fun _ => condition :=
  (refuseUnless_holds _ _).bind fun _ => holds_pure fun _ hState => hState.1

theorem claim_holds {knowledge : Knowledge Manifest} {state : Journal Manifest} (hStarted : Started deployment knowledge state)
    (hPhase : state.phase = .planned ∨ state.phase = .preparePending) :
    Holds (Sound deployment) (At deployment knowledge) (claim deployment state) fun claimed world =>
      ∃ next, At deployment next world ∧ Started deployment next claimed ∧ claimed.phase = .preparePending := by
  refine Holds.ite ?_ ?_
  · intro _
    refine (look_keeps knowledge _).bind fun target => (look_keeps knowledge _).bind fun archive => ?_
    refine (refuseUnless_holds _ _).bind_fact fun _ _ => ?_
    have hProper : Journal.Proper deployment { state with
        ownedSchemas := [state.target, state.archive], phase := Phase.preparePending } :=
      hStarted.proper.advance rfl rfl rfl ⟨rfl, rfl⟩ nofun
    refine (save_advanced hStarted.clean hProper nofun).bind fun _ => holds_pure fun world hAt => ?_
    exact ⟨_, hAt, ⟨rfl, hStarted.clean, hProper⟩, rfl⟩
  · intro hLater
    exact holds_pure fun world hAt => ⟨knowledge, hAt, hStarted, hPhase.resolve_left hLater⟩

theorem prepare_holds {knowledge : Knowledge Manifest} {state : Journal Manifest} (connection : Connection)
    (hStarted : Started deployment knowledge state) :
    Holds (Sound deployment) (At deployment knowledge) (prepare deployment connection state) (Ended deployment) := by
  refine (binding_holds knowledge connection state).bind fun _ => (refuseUnless_holds _ _).bind_fact fun _ hPhase => ?_
  refine (requireSchema_keeps knowledge _ _).bind fun _ => ?_
  refine Holds.bind_exists (claim_holds hStarted hPhase) fun claimed next hClaimed => ?_
  obtain ⟨hNext, hPending⟩ := hClaimed
  have hSaved : Saved deployment next claimed := ⟨hNext.journal, hNext.proper.source⟩
  have hOther : claimed.phase ≠ .rollbackPending := by
    rw [hPending]
    exact nofun
  refine (owned_holds claimed claimed.target).bind_fact fun _ _ => ?_
  refine Holds.bind_exists (resumeIsolated_holds claimed.targetHead claimed.source hSaved
    (apart_of_phase hNext.journal hOther _)) fun _ resumed _ => ?_
  refine Holds.bind_exists (emptyArchive_holds hNext.proper.source claimed.archive) fun _ emptied _ => ?_
  exact ended_pure (hNext.proper.advance rfl rfl rfl ⟨rfl, rfl⟩ nofun) nofun

theorem freeze_holds [DecidableEq Manifest] {knowledge : Knowledge Manifest} {state : Journal Manifest} (before : Manifest)
    (stoppedAt : Nat) (hStarted : Started deployment knowledge state) (hPhase : state.phase ≠ .rollbackPending) :
    Holds (Sound deployment) (At deployment knowledge) (freeze deployment state before stoppedAt) fun frozen world =>
      ∃ next, At deployment next world ∧ Started deployment next frozen ∧ next.view = knowledge.view ∧
        frozen.phase ≠ .rollbackPending ∧ frozen.target = state.target ∧ frozen.targetHead = state.targetHead := by
  refine Holds.ite ?_ ?_
  · intro _
    have hProper : Journal.Proper deployment { state with
        sourceManifest := some before, stoppedAt := some stoppedAt, phase := Phase.copyPending } :=
      hStarted.proper.advance rfl rfl rfl ⟨rfl, rfl⟩ nofun
    refine (save_advanced hStarted.clean hProper nofun).bind fun _ => holds_pure fun world hAt => ?_
    exact ⟨_, hAt, ⟨rfl, hStarted.clean, hProper⟩, rfl, nofun, rfl, rfl⟩
  · intro _
    refine (refuseUnless_holds _ _).bind_fact fun _ _ => holds_pure fun world hAt => ?_
    exact ⟨knowledge, hAt, hStarted, rfl, hPhase, rfl, rfl⟩

/-- Fencing starts a command again, with the live schema known. -/
theorem Holds.fence {knowledge : Knowledge Manifest} {state : Journal Manifest} {stopped : Bool} {α : Type}
    {next : Unit → Maintenance Rows Manifest α} {after : α → World Rows Manifest → Prop}
    (hStarted : Started deployment knowledge state)
    (hNext : ∀ found : Knowledge Manifest, Started deployment found state → found.fenced = true →
      (∀ name, name ≠ deployment.live ∨ knowledge.fenced = true → found.view name = knowledge.view name) →
      Holds (Sound deployment) (At deployment found) (next ⟨⟩) after) :
    Holds (Sound deployment) (At deployment knowledge) (fenced deployment stopped >>= next) after := by
  refine Holds.bind_exists (fenced_holds knowledge stopped) fun _ found hFound => ?_
  obtain ⟨hFenced, hJournal, hDirty, hView⟩ := hFound
  exact hNext found ⟨hJournal.trans hStarted.journal, hDirty.trans hStarted.clean, hStarted.proper⟩ hFenced hView

theorem copy_holds [DecidableEq Manifest] {knowledge : Knowledge Manifest} {state : Journal Manifest} (connection : Connection)
    (stopped : Bool) (stoppedAt : Nat) (hStarted : Started deployment knowledge state) :
    Holds (Sound deployment) (At deployment knowledge) (copy deployment connection state stopped stoppedAt)
      (Ended deployment) := by
  refine (binding_holds knowledge connection state).bind fun _ => (refuseUnless_holds _ _).bind_fact fun _ hPhase => ?_
  have hOther : state.phase ≠ .rollbackPending := by
    rintro hPending
    simp [hPending] at hPhase
  refine (sameStop_holds _ _).bind fun stop => (deadline_holds knowledge stop).bind fun _ => Holds.fence hStarted ?_
  intro found hFound hFenced _
  refine (requireSchema_keeps found _ _).bind fun _ => ?_
  refine (requireSchema_holds (Or.inr hFenced) _).bind_fact fun _ hHolding => ?_
  refine (manifest_keeps found _ _).bind fun before => ?_
  refine Holds.bind_exists (freeze_holds before stop hFound hOther) fun frozen next hFrozen => ?_
  obtain ⟨hNext, hView, hPending, hTarget, hHead⟩ := hFrozen
  have hName : frozen.target ≠ deployment.live := hNext.proper.target
  have hFilling : next.Holding deployment frozen.targetHead frozen.target := by
    rw [Knowledge.Holding, hView, hTarget, hHead]
    exact hHolding
  refine Holds.bind_exists (fillTarget_holds hName (apart_of_phase hNext.journal hPending _) hNext.clean hFilling)
    fun _ filled _ => ?_
  refine (deadline_holds filled _).bind fun _ => ?_
  exact ended_pure (hNext.proper.advance rfl rfl rfl ⟨rfl, rfl⟩ nofun) nofun

/-- A verified target is complete and has the evidence of the cutover. -/
structure Verified (deployment : Deployment Rows Manifest) (knowledge : Knowledge Manifest) (state : Journal Manifest) : Prop where
  started : Started deployment knowledge state
  fenced : knowledge.fenced = true
  tables : ∃ current incoming, knowledge.view state.source = some current ∧ knowledge.view state.target = some incoming ∧
    deployment.conforms state.targetHead incoming = true ∧
    deployment.manifest state.sourceHead current.tables = deployment.manifest state.targetHead incoming.tables ∧
    state.sourceManifest = some (deployment.manifest state.sourceHead current.tables)

theorem verified_holds [DecidableEq Manifest] {knowledge : Knowledge Manifest} {state : Journal Manifest}
    (connection : Connection) (stopped : Bool) (hStarted : Started deployment knowledge state) :
    Holds (Sound deployment) (At deployment knowledge) (verified deployment connection state stopped) fun result world =>
      ∃ next, At deployment next world ∧ Verified deployment next state ∧
        result = { state with phase := Phase.verified } := by
  refine (binding_holds knowledge connection state).bind fun _ => (refuseUnless_holds _ _).bind_fact fun _ _ => ?_
  refine (demand_holds _ _).bind_fact fun stop _ => (deadline_holds knowledge stop).bind fun _ => Holds.fence hStarted ?_
  intro found hFound hFenced _
  refine (requireSchema_keeps found _ _).bind fun _ => ?_
  refine (requireSchema_holds (Or.inr hFenced) _).bind_fact fun _ hHolding => ?_
  refine (verify_holds _ _ hFenced).bind_fact fun evidence hEvidence => ?_
  refine (refuseUnless_holds _ _).bind_fact fun _ hManifest => (deadline_holds found stop).bind fun _ => ?_
  refine holds_pure fun world hAt => ⟨found, hAt, ⟨hFound, hFenced, ?_⟩, rfl⟩
  obtain ⟨current, incoming, hCurrent, hIncoming, rfl, hSame⟩ := hEvidence
  obtain ⟨schema, hSchema, hConforms⟩ := hHolding
  obtain rfl := Option.some.inj (hSchema.symm.trans hIncoming)
  exact ⟨current, schema, hCurrent, hSchema, hConforms, hSame, hManifest⟩

end SchemaRefactor

end QsAi
