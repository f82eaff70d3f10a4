import QsAi.Maintenance.Safety

/-! What each step of a command keeps. The application's writes between two
steps leave every fact that is known; a durable step keeps the live schema and
is safe, and tells what the schemas are after it. -/
namespace QsAi

namespace SchemaRefactor

open Interrupted

variable {Rows Manifest : Type} {deployment : Deployment Rows Manifest}

/-- A known schema is the durable one, unless its rows are not committed. -/
theorem At.durable {knowledge : Knowledge Manifest} {world : World Rows Manifest} (h : At deployment knowledge world)
    {name : String} (hKnown : name ≠ deployment.live ∨ knowledge.fenced = true) (hClean : knowledge.dirty ≠ some name) :
    world.durable name = knowledge.view name :=
  (h.settled name hClean).trans (h.view name hKnown)

theorem At.live_clean {knowledge : Knowledge Manifest} {world : World Rows Manifest} (h : At deployment knowledge world) :
    knowledge.dirty ≠ some deployment.live := fun hDirty => (h.staged _ hDirty).1 rfl

/-! Interference. -/

theorem write_sound {world : World Rows Manifest} (h : Sound deployment world) (tables : List Table) :
    Sound deployment (world.write deployment tables) := by
  obtain ⟨schema, hLive, hComplete, hRows⟩ := h.live
  unfold World.write
  rw [hLive]
  dsimp only
  split
  · rename_i hWrite
    refine ⟨⟨_, Database.set_same _ _ _, hWrite.2.1, rfl⟩, h.history, ?_⟩
    intro journal hJournal
    obtain ⟨hProper, hReady⟩ := h.journal journal hJournal
    refine ⟨hProper, ?_⟩
    intro hPhase plan hPlan hFast next hNext hHead
    simp only [Database.set_same, Option.some.injEq] at hNext
    subst hNext
    simp only [Database.set_other hProper.archive]
    exact hReady hPhase plan hPlan hFast schema hLive (hWrite.2.2.trans hHead)
  · exact h

theorem write_at {knowledge : Knowledge Manifest} {world : World Rows Manifest} (h : At deployment knowledge world)
    (hOpen : knowledge.fenced = false) (tables : List Table) : At deployment knowledge (world.write deployment tables) := by
  unfold World.write
  split
  · exact h
  · dsimp only
    split
    · refine ⟨?_, h.journal, h.fenced, ?_, h.staged, h.now⟩
      · intro name hName
        have hOther : name ≠ deployment.live := by simpa [hOpen] using hName
        simp only [Database.set_other hOther]
        exact h.view name hName
      · intro name hClean
        by_cases hName : name = deployment.live
        · subst hName
          simp only [Database.set_same]
        · simp only [Database.set_other hName]
          exact h.settled name hClean
    · exact h

theorem interfere_sound {knowledge : Knowledge Manifest} {world : World Rows Manifest} (hSound : Sound deployment world)
    (hAt : At deployment knowledge world) (moment : Moment) :
    Sound deployment (world.interfere deployment moment) ∧ At deployment knowledge (world.interfere deployment moment) := by
  have hWrites : ∀ writes : List (List Table), knowledge.fenced = false →
      Sound deployment (writes.foldl (World.write deployment) world) ∧
        At deployment knowledge (writes.foldl (World.write deployment) world) := by
    intro writes hOpen
    induction writes generalizing world with
    | nil => exact ⟨hSound, hAt⟩
    | cons tables writes ih => exact ih (write_sound hSound tables) (write_at hAt hOpen tables)
  have hLater : ∀ next : World Rows Manifest, Sound deployment next ∧ At deployment knowledge next →
      Sound deployment { next with clock := next.clock + moment.elapsed } ∧
        At deployment knowledge { next with clock := next.clock + moment.elapsed } := by
    rintro next ⟨hNext, hKnown⟩
    exact ⟨⟨hNext.live, hNext.history, hNext.journal⟩,
      ⟨hKnown.view, hKnown.journal, hKnown.fenced, hKnown.settled, hKnown.staged, Nat.le_add_right_of_le hKnown.now⟩⟩
  unfold World.interfere
  dsimp only
  split
  · exact hLater _ ⟨hSound, hAt⟩
  · rename_i hOpen
    have hFlag : knowledge.fenced = false := by
      rw [← hAt.fenced]
      simpa using hOpen
    exact hLater _ (hWrites moment.writes hFlag)

theorem moment_holds (knowledge : Knowledge Manifest) :
    Holds (Sound deployment) (At deployment knowledge) (moment deployment) fun _ => At deployment knowledge := by
  refine holds_get.bind fun world => ?_
  cases world.schedule with
  | nil => exact holds_pure fun _ hState => hState.2
  | cons next rest =>
      refine Holds.bind (show Holds _ _ _ fun _ => At deployment knowledge from holds_set ?_) fun _ => ?_
      · rintro _ hSound ⟨rfl, hAt⟩
        obtain ⟨hNext, hKnown⟩ := interfere_sound hSound hAt next
        exact ⟨⟨hNext.live, hNext.history, hNext.journal⟩,
          ⟨hKnown.view, hKnown.journal, hKnown.fenced, hKnown.settled, hKnown.staged, hKnown.now⟩⟩
      · exact Holds.ite (fun _ => holds_throw _) fun _ => holds_pure fun _ hState => hState

theorem look_holds {α : Type} (knowledge : Knowledge Manifest) (read : World Rows Manifest → α) :
    Holds (Sound deployment) (At deployment knowledge) (look deployment read) fun value world =>
      At deployment knowledge world ∧ value = read world := by
  refine (moment_holds knowledge).bind fun _ => holds_get.bind fun world => holds_pure ?_
  rintro _ ⟨rfl, hAt⟩
  exact ⟨hAt, rfl⟩

theorem refuseUnless_holds {inv condition : World Rows Manifest → Prop} (fact : Prop) [Decidable fact] (refusal : Refusal) :
    Holds inv condition (refuseUnless fact refusal) fun _ world => condition world ∧ fact :=
  Holds.ite (fun hFact => holds_pure fun _ hState => ⟨hState, hFact⟩) fun _ => holds_throw _

theorem demand_holds {inv condition : World Rows Manifest → Prop} {α : Type} (value : Option α) (refusal : Refusal) :
    Holds inv condition (demand value refusal) fun found world => condition world ∧ value = some found := by
  cases value with
  | none => exact holds_throw _
  | some found => exact holds_pure fun _ hState => ⟨hState, rfl⟩

/-! Reading. -/

section

variable {knowledge : Knowledge Manifest} {name : String} (hKnown : name ≠ deployment.live ∨ knowledge.fenced = true)

include hKnown

theorem existsSchema_holds : Holds (Sound deployment) (At deployment knowledge) (existsSchema deployment name) fun found world =>
    At deployment knowledge world ∧ found = (knowledge.view name).isSome := by
  refine (look_holds knowledge _).post ?_
  rintro found world ⟨hAt, rfl⟩
  exact ⟨hAt, by rw [hAt.view name hKnown]⟩

theorem tablesOf_holds : Holds (Sound deployment) (At deployment knowledge) (tablesOf deployment name) fun names world =>
    At deployment knowledge world ∧ names = ((knowledge.view name).map fun schema => tableNames schema.tables).getD [] := by
  refine (look_holds knowledge _).post ?_
  rintro names world ⟨hAt, rfl⟩
  exact ⟨hAt, by rw [hAt.view name hKnown]⟩

theorem view_holds : Holds (Sound deployment) (At deployment knowledge) (look deployment fun world => world.view name)
    fun schema world => At deployment knowledge world ∧ schema = knowledge.view name := by
  refine (look_holds knowledge _).post ?_
  rintro schema world ⟨hAt, rfl⟩
  exact ⟨hAt, hAt.view name hKnown⟩

theorem contents_holds (refusal : Refusal) :
    Holds (Sound deployment) (At deployment knowledge) (contents deployment name refusal) fun schema world =>
      At deployment knowledge world ∧ knowledge.view name = some schema := by
  refine (view_holds hKnown).bind_fact fun schema hSchema => ?_
  refine (demand_holds schema refusal).post ?_
  rintro found world ⟨hAt, rfl⟩
  exact ⟨hAt, hSchema.symm⟩

theorem conformsSchema_holds (head : Head) :
    Holds (Sound deployment) (At deployment knowledge) (conformsSchema deployment head name) fun found world =>
      At deployment knowledge world ∧
        (found = true → ∃ schema, knowledge.view name = some schema ∧ deployment.conforms head schema = true) := by
  refine (look_holds knowledge _).post ?_
  rintro found world ⟨hAt, rfl⟩
  refine ⟨hAt, ?_⟩
  rw [hAt.view name hKnown]
  cases knowledge.view name with
  | none => simp
  | some schema => simp

theorem requireSchema_holds (head : Head) :
    Holds (Sound deployment) (At deployment knowledge) (requireSchema deployment head name) fun _ world =>
      At deployment knowledge world ∧ ∃ schema, knowledge.view name = some schema ∧ deployment.conforms head schema = true := by
  refine (conformsSchema_holds hKnown head).bind_fact fun found hFound => ?_
  refine (refuseUnless_holds _ _).post ?_
  rintro _ world ⟨hAt, hConforms⟩
  exact ⟨hAt, hFound hConforms⟩

theorem headOfSchema_holds : Holds (Sound deployment) (At deployment knowledge) (headOfSchema deployment name) fun head world =>
    At deployment knowledge world ∧ ∃ schema, knowledge.view name = some schema ∧ headOf schema.tables = some head := by
  refine (contents_holds hKnown _).bind_fact fun schema hSchema => ?_
  refine (demand_holds _ _).post ?_
  rintro head world ⟨hAt, hHead⟩
  exact ⟨hAt, schema, hSchema, hHead⟩

theorem manifest_holds (head : Head) :
    Holds (Sound deployment) (At deployment knowledge) (manifest deployment name head) fun evidence world =>
      At deployment knowledge world ∧
        ∃ schema, knowledge.view name = some schema ∧ evidence = deployment.manifest head schema.tables := by
  refine (contents_holds hKnown _).bind_fact fun schema hSchema => ?_
  refine (refuseUnless_holds _ _).bind_fact fun _ _ => holds_pure fun world hAt => ?_
  exact ⟨hAt, schema, hSchema, rfl⟩

end

/-- Reading tells nothing of what is not known, and changes nothing. -/
theorem look_keeps {α : Type} (knowledge : Knowledge Manifest) (read : World Rows Manifest → α) :
    Holds (Sound deployment) (At deployment knowledge) (look deployment read) fun _ => At deployment knowledge :=
  (look_holds knowledge read).post fun _ _ hState => hState.1

theorem contents_keeps (knowledge : Knowledge Manifest) (name : String) (refusal : Refusal) :
    Holds (Sound deployment) (At deployment knowledge) (contents deployment name refusal) fun _ => At deployment knowledge :=
  (look_keeps knowledge _).bind fun value => (demand_holds value refusal).post fun _ _ hState => hState.1

theorem requireSchema_keeps (knowledge : Knowledge Manifest) (head : Head) (name : String) :
    Holds (Sound deployment) (At deployment knowledge) (requireSchema deployment head name) fun _ => At deployment knowledge :=
  (look_keeps knowledge _).bind fun _ => (refuseUnless_holds _ _).post fun _ _ hState => hState.1

theorem now_holds (knowledge : Knowledge Manifest) :
    Holds (Sound deployment) (At deployment knowledge) (now deployment) fun current world =>
      At deployment { knowledge with now := max knowledge.now current } world := by
  refine (look_holds knowledge _).post ?_
  rintro current world ⟨hAt, rfl⟩
  exact ⟨hAt.view, hAt.journal, hAt.fenced, hAt.settled, hAt.staged, max_le hAt.now le_rfl⟩

theorem deadline_holds (knowledge : Knowledge Manifest) (stoppedAt : Nat) :
    Holds (Sound deployment) (At deployment knowledge) (deadline deployment stoppedAt) fun _ => At deployment knowledge :=
  (look_keeps knowledge _).bind fun _ => (refuseUnless_holds _ _).post fun _ _ hState => hState.1

/-! Durable steps. -/

/-- Nothing is left uncommitted. -/
def Knowledge.clean (knowledge : Knowledge Manifest) : Knowledge Manifest := { knowledge with dirty := none }

theorem At.clean_durable {knowledge : Knowledge Manifest} {world : World Rows Manifest}
    (h : At deployment knowledge.clean world) (name : String) : world.durable name = world.view name :=
  h.settled name nofun

theorem settle_sound {knowledge : Knowledge Manifest} {world : World Rows Manifest} (hSound : Sound deployment world)
    (hAt : At deployment knowledge world) : Sound deployment { world with durable := world.view } := by
  have hLive := hAt.settled deployment.live hAt.live_clean
  obtain ⟨schema, hSchema, hComplete, hRows⟩ := hSound.live
  refine ⟨⟨schema, hLive.symm.trans hSchema, hComplete, hRows⟩, hSound.history, ?_⟩
  intro journal hJournal
  obtain ⟨hProper, hReady⟩ := hSound.journal journal hJournal
  refine ⟨hProper, ?_⟩
  intro hPhase plan hPlan hFast current hCurrent hHead
  obtain ⟨kept, hKept, hLayout⟩ := hReady hPhase plan hPlan hFast current (hLive.trans hCurrent) hHead
  refine ⟨kept, ?_, hLayout⟩
  have hArchive : knowledge.dirty ≠ some journal.archive := by
    intro hDirty
    exact (hAt.staged _ hDirty).2 journal (hAt.journal ▸ hJournal) hPhase plan hPlan hFast rfl
  exact (hAt.settled journal.archive hArchive).symm.trans hKept

theorem record_holds {knowledge : Knowledge Manifest} {effect : Effect}
    (hSafe : ∀ world : World Rows Manifest, Sound deployment world → At deployment knowledge world →
      (Act.mk effect world.durable world.journal world.latest world.clock).Safe deployment) :
    Holds (Sound deployment) (At deployment knowledge) (record effect) fun _ => At deployment knowledge := by
  refine holds_modify ?_ ?_
  · intro world hSound hAt
    refine ⟨hSound.live, ?_, hSound.journal⟩
    intro act hAct
    rcases List.mem_append.mp hAct with hAct | hAct
    · exact hSound.history act hAct
    · rw [List.mem_singleton.mp hAct]
      exact hSafe world hSound hAt
  · intro world _ hAt
    exact ⟨hAt.view, hAt.journal, hAt.fenced, hAt.settled, hAt.staged, hAt.now⟩

theorem commit_holds (knowledge : Knowledge Manifest) :
    Holds (Sound deployment) (At deployment knowledge) (commit deployment) fun _ => At deployment knowledge.clean := by
  refine (moment_holds knowledge).bind fun _ => (record_holds ?_).bind fun _ => holds_modify ?_ ?_
  · exact fun world hSound _ => ⟨hSound.live, trivial⟩
  · exact fun world hSound hAt => settle_sound hSound hAt
  · exact fun world _ hAt => ⟨hAt.view, hAt.journal, hAt.fenced, fun _ _ => rfl, nofun, hAt.now⟩

/-- A statement that is safe where everything else is committed. -/
theorem define_holds {knowledge next : Knowledge Manifest} {effect : Effect} {change : Database → Database}
    (hSafe : ∀ world : World Rows Manifest, Sound deployment world → At deployment knowledge.clean world →
      (Act.mk effect world.durable world.journal world.latest world.clock).Safe deployment)
    (hChange : ∀ world : World Rows Manifest, Sound deployment world → At deployment knowledge.clean world →
      Sound deployment { world with durable := change world.durable, view := change world.view } ∧
        At deployment next { world with durable := change world.durable, view := change world.view }) :
    Holds (Sound deployment) (At deployment knowledge) (define deployment effect change) fun _ => At deployment next := by
  refine (commit_holds knowledge).bind fun _ => (moment_holds knowledge.clean).bind fun _ =>
    (record_holds hSafe).bind fun _ => holds_modify ?_ ?_
  · exact fun world hSound hAt => (hChange world hSound hAt).1
  · exact fun world hSound hAt => (hChange world hSound hAt).2

/-- The knowledge after a schema was set. -/
def Knowledge.set (knowledge : Knowledge Manifest) (name : String) (schema : Option Schema) : Knowledge Manifest :=
  { knowledge with view := knowledge.view.set name schema, dirty := none }

theorem Knowledge.set_beside (knowledge : Knowledge Manifest) (name : String) (schema : Option Schema) :
    Knowledge.Beside name knowledge (knowledge.set name schema) :=
  ⟨fun _ hOther => Database.set_other hOther _ _, rfl, rfl⟩

/-- Another schema than the live one is set; a fast rollback does not need it,
or does not have it. -/
theorem set_keeps {knowledge : Knowledge Manifest} {world : World Rows Manifest} (hSound : Sound deployment world)
    (hAt : At deployment knowledge.clean world) {name : String} (hName : name ≠ deployment.live)
    (hApart : Apart knowledge.journal name ∨ knowledge.view name = none) (schema : Option Schema) :
    Sound deployment { world with durable := world.durable.set name schema, view := world.view.set name schema } ∧
      At deployment (knowledge.set name schema)
        { world with durable := world.durable.set name schema, view := world.view.set name schema } := by
  obtain ⟨current, hLive, hComplete, hRows⟩ := hSound.live
  refine ⟨⟨⟨current, (Database.set_other (Ne.symm hName) _ _).trans hLive, hComplete, hRows⟩, hSound.history, ?_⟩, ?_⟩
  · intro journal hJournal
    obtain ⟨hProper, hReady⟩ := hSound.journal journal hJournal
    refine ⟨hProper, ?_⟩
    intro hPhase plan hPlan hFast found hFound hHead
    simp only [Database.set_other (Ne.symm hName)] at hFound
    obtain ⟨kept, hKept, hLayout⟩ := hReady hPhase plan hPlan hFast found hFound hHead
    refine ⟨kept, ?_, hLayout⟩
    have hOther : journal.archive ≠ name := by
      rintro rfl
      rcases hApart with hApart | hNone
      · exact hApart journal (hAt.journal ▸ hJournal) hPhase plan hPlan hFast rfl
      · have hDurable := hAt.durable (Or.inl hProper.archive) nofun
        rw [hKept] at hDurable
        exact Option.some_ne_none kept (hDurable.trans hNone)
    exact (Database.set_other hOther _ _).trans hKept
  · refine ⟨?_, hAt.journal, hAt.fenced, ?_, nofun, hAt.now⟩
    · intro other hKnown
      by_cases hSame : other = name
      · subst hSame
        exact (Database.set_same _ _ _).trans (Database.set_same _ _ _).symm
      · exact (Database.set_other hSame _ _).trans ((hAt.view other hKnown).trans (Database.set_other hSame _ _).symm)
    · intro other _
      by_cases hSame : other = name
      · subst hSame
        exact (Database.set_same _ _ _).trans (Database.set_same _ _ _).symm
      · exact (Database.set_other hSame _ _).trans ((hAt.clean_durable other).trans (Database.set_other hSame _ _).symm)

theorem alter_holds {knowledge : Knowledge Manifest} {name : String} (hName : name ≠ deployment.live)
    (hApart : Apart knowledge.journal name) (schema : Schema) :
    Holds (Sound deployment) (At deployment knowledge) (define deployment (.alter name) fun db => db.set name (some schema))
      fun _ => At deployment (knowledge.set name (some schema)) :=
  define_holds (fun _ hSound _ => ⟨hSound.live, hName⟩) fun _ hSound hAt => set_keeps hSound hAt hName (Or.inl hApart) _

theorem create_holds {knowledge : Knowledge Manifest} {name : String} (hName : name ≠ deployment.live)
    (hNone : knowledge.view name = none) (schema : Schema) :
    Holds (Sound deployment) (At deployment knowledge) (define deployment (.create name) fun db => db.set name (some schema))
      fun _ => At deployment (knowledge.set name (some schema)) :=
  define_holds (fun _ hSound _ => ⟨hSound.live, hName⟩) fun _ hSound hAt => set_keeps hSound hAt hName (Or.inr hNone) _

/-- What makes a drop safe is known. -/
theorem drop_holds {knowledge : Knowledge Manifest} {name : String} {journal : Journal Manifest} {schema : Schema}
    (hName : name ≠ deployment.live) (hApart : Apart knowledge.journal name) (hJournal : knowledge.journal = some journal)
    (hOwned : name ∈ journal.ownedSchemas) (hSchema : knowledge.view name = some schema)
    (hReason : (∃ options, deployment.discardable options schema = true) ∨
      ∃ kept ∈ journal.retainedArchives, kept.schema = name ∧ kept.retainedSince + retentionSeconds ≤ knowledge.now ∧
        kept.Matches deployment schema) :
    Holds (Sound deployment) (At deployment knowledge) (define deployment (.drop name) fun db => db.set name none)
      fun _ => At deployment (knowledge.set name none) := by
  refine define_holds ?_ fun _ hSound hAt => set_keeps hSound hAt hName (Or.inl hApart) _
  intro world hSound hAt
  refine ⟨hSound.live, hName, journal, schema, hAt.journal.trans hJournal, hOwned,
    (hAt.durable (Or.inl hName) nofun).trans hSchema, ?_⟩
  rcases hReason with hReason | ⟨kept, hKept, hSame, hRetention, hMatches⟩
  · exact Or.inl hReason
  · exact Or.inr ⟨kept, hKept, hSame, hRetention.trans hAt.now, hMatches⟩

/-- A proper journal is saved where nothing is uncommitted. -/
theorem save_holds {knowledge : Knowledge Manifest} {journal : Journal Manifest} (hClean : knowledge.dirty = none)
    (hProper : journal.Proper deployment)
    (hReady : ∀ world : World Rows Manifest, At deployment knowledge world → journal.Ready deployment world.durable) :
    Holds (Sound deployment) (At deployment knowledge) (save deployment journal) fun _ =>
      At deployment { knowledge with journal := some journal } := by
  refine (moment_holds knowledge).bind fun _ => holds_modify ?_ ?_
  · intro world hSound hAt
    refine ⟨hSound.live, hSound.history, ?_⟩
    intro saved hSaved
    obtain rfl := Option.some.inj hSaved
    exact ⟨hProper, hReady world hAt⟩
  · intro world _ hAt
    exact ⟨hAt.view, rfl, hAt.fenced, hAt.settled, fun name hDirty => absurd (hClean ▸ hDirty) nofun, hAt.now⟩

/-- The knowledge after rows were staged. -/
def Knowledge.stage (knowledge : Knowledge Manifest) (name : String) (schema : Schema) : Knowledge Manifest :=
  { knowledge with view := knowledge.view.set name (some schema), dirty := some name }

theorem Knowledge.stage_beside (knowledge : Knowledge Manifest) (name : String) (schema : Schema) :
    Knowledge.Beside name knowledge (knowledge.stage name schema) :=
  ⟨fun _ hOther => Database.set_other hOther _ _, rfl, rfl⟩

/-- Rows are staged in a schema that a fast rollback does not need. -/
theorem stage_holds {knowledge : Knowledge Manifest} {name : String} (hName : name ≠ deployment.live)
    (hApart : Apart knowledge.journal name) (hClean : knowledge.dirty = none) (schema : Schema) :
    Holds (Sound deployment) (At deployment knowledge) (stage deployment name schema) fun _ =>
      At deployment (knowledge.stage name schema) := by
  refine (moment_holds knowledge).bind fun _ => holds_modify ?_ ?_
  · exact fun world hSound _ => ⟨hSound.live, hSound.history, hSound.journal⟩
  · intro world _ hAt
    refine ⟨?_, hAt.journal, hAt.fenced, ?_, ?_, hAt.now⟩
    · intro other hKnown
      by_cases hSame : other = name
      · subst hSame
        exact (Database.set_same _ _ _).trans (Database.set_same _ _ _).symm
      · exact (Database.set_other hSame _ _).trans ((hAt.view other hKnown).trans (Database.set_other hSame _ _).symm)
    · intro other hOther
      have hSame : other ≠ name := fun h => hOther (congrArg some h.symm)
      exact (hAt.settled other (by rw [hClean]; exact nofun)).trans (Database.set_other hSame _ _).symm
    · rintro other hDirty
      obtain rfl := Option.some.inj hDirty
      exact ⟨hName, hApart⟩

/-- Once the writers are fenced, the live schema is known as well. -/
theorem fenced_holds (knowledge : Knowledge Manifest) (stopped : Bool) :
    Holds (Sound deployment) (At deployment knowledge) (fenced deployment stopped) fun _ world =>
      ∃ next : Knowledge Manifest, At deployment next world ∧ next.fenced = true ∧ next.journal = knowledge.journal ∧
        next.dirty = knowledge.dirty ∧
        ∀ name, name ≠ deployment.live ∨ knowledge.fenced = true → next.view name = knowledge.view name := by
  refine (refuseUnless_holds _ _).bind_fact fun _ _ => (moment_holds knowledge).bind fun _ => holds_modify ?_ ?_
  · exact fun world hSound _ => ⟨hSound.live, hSound.history, hSound.journal⟩
  · intro world _ hAt
    exact ⟨⟨world.view, knowledge.journal, true, knowledge.dirty, knowledge.now⟩,
      ⟨fun _ _ => rfl, hAt.journal, rfl, hAt.settled, hAt.staged, hAt.now⟩, rfl, rfl, rfl, hAt.view⟩

end SchemaRefactor

end QsAi
