import QsAi.Maintenance.Control

/-! Safety of a cutover. What a command knows of the schemas stays true between
its steps, and every durable step keeps the live schema complete and current. -/
namespace QsAi

namespace SchemaRefactor

open Interrupted

variable {Rows Manifest : Type} (deployment : Deployment Rows Manifest)

/-- The live schema has a complete layout and the rows written last. -/
def Current (database : Database) (latest : Rows) : Prop :=
  ∃ schema, database deployment.live = some schema ∧ deployment.complete schema = true ∧
    deployment.rows schema.tables = latest

/-- An archive holds what is on record. -/
def Retained.Matches (kept : Retained Manifest) (schema : Schema) : Prop :=
  if kept.emptyAfterRestore = true then schema.tables = []
  else deployment.conforms kept.head schema = true ∧ deployment.manifest kept.head schema.tables = kept.manifest

/-- A schema can be dropped: it is owned, and a pristine destination or an
archive past its retention that holds what is on record. -/
def Droppable (act : Act Rows Manifest) (name : String) : Prop :=
  name ≠ deployment.live ∧ ∃ journal schema, act.journal = some journal ∧ name ∈ journal.ownedSchemas ∧
    act.database name = some schema ∧
    ((∃ options, deployment.discardable options schema = true) ∨
      ∃ kept ∈ journal.retainedArchives, kept.schema = name ∧ kept.retainedSince + retentionSeconds ≤ act.clock ∧
        kept.Matches deployment schema)

/-- The rollback converts the current rows, so they may have changed. -/
def Journal.Reversing (journal : Journal Manifest) : Prop :=
  journal.phase = .rollbackPending ∧ ∃ plan ∈ journal.rollback, plan.mode = .reverse

/-- Tables can be exchanged: the incoming ones are complete and have the rows of
the current ones, and unless they were converted back, the rows are those of the
cutover. -/
def Exchangeable (act : Act Rows Manifest) (source target archive : String) : Prop :=
  source = deployment.live ∧ ∃ journal current incoming kept head version, act.journal = some journal ∧
    act.database source = some current ∧ act.database target = some incoming ∧ act.database archive = some kept ∧
    kept.tables = [] ∧ (head = .old ∨ head = .new) ∧ deployment.layout head incoming.tables = true ∧
    deployment.rows incoming.tables = deployment.rows current.tables ∧
    (journal.Reversing ∨ journal.sourceManifest = some (deployment.manifest version current.tables))

/-- A durable step that neither exposes nor destroys unverified data. -/
def Act.Safe (act : Act Rows Manifest) : Prop :=
  Current deployment act.database act.latest ∧
    match act.effect with
    | .commit => True
    | .create name => name ≠ deployment.live
    | .alter name => name ≠ deployment.live
    | .drop name => Droppable deployment act name
    | .exchange source target archive => Exchangeable deployment act source target archive

/-- The constants of a journal, and what the plan of a fast rollback compared. -/
structure Journal.Proper (journal : Journal Manifest) : Prop where
  source : journal.source = deployment.live
  target : journal.target ≠ deployment.live
  archive : journal.archive ≠ deployment.live
  heads : (journal.sourceHead = .old ∧ journal.targetHead = .new) ∨ (journal.sourceHead = .new ∧ journal.targetHead = .old)
  fast : journal.phase = .rollbackPending → ∀ plan ∈ journal.rollback, plan.mode = .fast →
    plan.target = journal.archive ∧ plan.archive ≠ journal.archive ∧ journal.sourceManifest = some plan.manifest

/-- Until a fast rollback exchanged the tables, its archive is complete. -/
def Journal.Ready (journal : Journal Manifest) (database : Database) : Prop :=
  journal.phase = .rollbackPending → ∀ plan ∈ journal.rollback, plan.mode = .fast → ∀ schema,
    database deployment.live = some schema → headOf schema.tables = some journal.targetHead →
      ∃ kept, database journal.archive = some kept ∧ deployment.layout journal.sourceHead kept.tables = true

/-- What holds between any two steps. -/
structure Sound (world : World Rows Manifest) : Prop where
  live : Current deployment world.durable world.latest
  history : ∀ act ∈ world.history, act.Safe deployment
  journal : ∀ journal, world.journal = some journal → journal.Proper deployment ∧ journal.Ready deployment world.durable

/-- What a command knows: the schemas, the live one included once it is fenced,
the journal on disk, and the schema with uncommitted rows. -/
structure Knowledge (Manifest : Type) where
  view : Database
  journal : Option (Journal Manifest)
  fenced : Bool
  dirty : Option String
  now : Nat

/-- A fast rollback does not need this schema. -/
def Apart (journal : Option (Journal Manifest)) (name : String) : Prop :=
  ∀ state, journal = some state → state.phase = .rollbackPending → ∀ plan ∈ state.rollback, plan.mode = .fast →
    name ≠ state.archive

structure At (knowledge : Knowledge Manifest) (world : World Rows Manifest) : Prop where
  view : ∀ name, name ≠ deployment.live ∨ knowledge.fenced = true → world.view name = knowledge.view name
  journal : world.journal = knowledge.journal
  fenced : world.fenced = knowledge.fenced
  settled : ∀ name, knowledge.dirty ≠ some name → world.durable name = world.view name
  staged : ∀ name, knowledge.dirty = some name → name ≠ deployment.live ∧ Apart knowledge.journal name
  now : knowledge.now ≤ world.clock

/-- Other schemas and the journal are what they were. -/
structure Knowledge.Beside (name : String) (knowledge next : Knowledge Manifest) : Prop where
  view : ∀ other, other ≠ name → next.view other = knowledge.view other
  journal : next.journal = knowledge.journal
  fenced : next.fenced = knowledge.fenced

theorem Knowledge.Beside.refl (name : String) (knowledge : Knowledge Manifest) : Knowledge.Beside name knowledge knowledge :=
  ⟨fun _ _ => rfl, rfl, rfl⟩

theorem Knowledge.Beside.trans {name : String} {first next last : Knowledge Manifest} (h : Knowledge.Beside name first next)
    (hNext : Knowledge.Beside name next last) : Knowledge.Beside name first last where
  view other hOther := (hNext.view other hOther).trans (h.view other hOther)
  journal := hNext.journal.trans h.journal
  fenced := hNext.fenced.trans h.fenced

variable {deployment}

/-! Layouts. -/

theorem conforms_head {head : Head} {schema : Schema} (h : deployment.conforms head schema = true) :
    headOf schema.tables = some head := by
  simp only [Deployment.conforms, Deployment.layout, Bool.and_eq_true, beq_iff_eq] at h
  exact h.1.1.1.1.2

theorem layout_head {head : Head} {tables : List Table} (h : deployment.layout head tables = true) :
    headOf tables = some head := by
  simp only [Deployment.layout, Bool.and_eq_true, beq_iff_eq] at h
  exact h.1.1.2

theorem complete_conforms {schema : Schema} (h : deployment.complete schema = true) :
    ∃ head, (head = .old ∨ head = .new) ∧ deployment.conforms head schema = true := by
  simp only [Deployment.complete, Bool.or_eq_true] at h
  rcases h with h | h
  · exact ⟨.old, Or.inl rfl, h⟩
  · exact ⟨.new, Or.inr rfl, h⟩

theorem conforms_complete {head : Head} {schema : Schema} (hHead : head = .old ∨ head = .new)
    (h : deployment.conforms head schema = true) : deployment.complete schema = true := by
  rw [Deployment.complete, Bool.or_eq_true]
  rcases hHead with rfl | rfl
  · exact Or.inl h
  · exact Or.inr h

/-- A complete schema stays complete with the tables of a layout. -/
theorem complete_exchange {head : Head} {schema : Schema} {tables : List Table} (hHead : head = .old ∨ head = .new)
    (h : deployment.complete schema = true) (hLayout : deployment.layout head tables = true) :
    deployment.complete { schema with tables } = true := by
  obtain ⟨_, -, hConforms⟩ := complete_conforms h
  simp only [Deployment.conforms, Bool.and_eq_true, beq_iff_eq] at hConforms
  refine conforms_complete hHead ?_
  simp [Deployment.conforms, hLayout, hConforms.1.2, hConforms.2]

/-- Rows and counters do not belong to a layout. -/
theorem layout_rows {head : Head} {tables : List Table} {change : Table → Table}
    (hSame : ∀ table, (change table).name = table.name ∧ (change table).base = table.base ∧
      (change table).definition = table.definition ∧ (table.name = versionTable → (change table).rows = table.rows))
    (h : deployment.layout head tables = true) : deployment.layout head (tables.map change) = true := by
  have hNames : tableNames (tables.map change) = tableNames tables := by
    rw [tableNames, tableNames, List.map_map]
    exact List.map_congr_left fun table _ => (hSame table).1
  have hFind : (tables.map change).find? (·.name == versionTable) = (tables.find? (·.name == versionTable)).map change := by
    rw [List.find?_map]
    congr 2
    funext table
    simp [(hSame table).1]
  have hVersions : versions (tables.map change) = versions tables := by
    rw [versions, versions, hFind]
    cases hFound : tables.find? (·.name == versionTable) with
    | none => rfl
    | some table =>
        have hName : table.name = versionTable := by simpa using List.find?_some hFound
        simp only [Option.map_some, (hSame table).2.2.2 hName]
  have hHead : headOf (tables.map change) = headOf tables := by rw [headOf, headOf, hVersions]
  have hBase : (tables.map change).all (·.base) = tables.all (·.base) := by
    rw [List.all_map]
    congr 1
    funext table
    exact (hSame table).2.1
  have hDefinitions : (tables.map change).map (fun table => (table.name, table.definition)) =
      tables.map fun table => (table.name, table.definition) := by
    rw [List.map_map]
    refine List.map_congr_left fun table _ => ?_
    simp [(hSame table).1, (hSame table).2.2.1]
  rw [Deployment.layout] at h ⊢
  rw [hNames, hHead, hBase, hDefinitions]
  exact h

theorem fill_layout {head : Head} {tables : List Table} (rows : String → List Row)
    (h : deployment.layout head tables = true) : deployment.layout head (fill rows tables) = true := by
  refine layout_rows (fun table => ?_) h
  by_cases hName : table.name = versionTable
  · simp [hName]
  · simp [hName]

theorem setCounter_layout {head : Head} {tables : List Table} (name : String) (value : Nat)
    (h : deployment.layout head tables = true) : deployment.layout head (setCounter name value tables) = true := by
  refine layout_rows (fun table => ?_) h
  by_cases hName : table.name = name
  · simp [hName]
  · simp [hName]

end SchemaRefactor

end QsAi
