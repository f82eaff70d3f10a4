import QsAi.Foundation.Interrupted
import QsAi.Maintenance.PromptInventory

/-! The retirement of prompts. A call writes a journal, deletes the candidates of
its plan in one transaction and commits; it can fail or lose the server at every
point. A journal that exists makes a call only look at the rows. -/
namespace QsAi

open Guarded Keyed Interrupted

namespace PromptRetirement

structure RetirementPlan where
  planSha256 : String
  inventory : Inventory
deriving DecidableEq

inductive JournalPhase
  | pending
  | commitPending
  | committed
deriving DecidableEq, Repr

structure Journal where
  planSha256 : String
  source : Structure
  stoppedAt : String
  phase : JournalPhase
deriving DecidableEq

/-- How a step goes: it returns, it raises, the process dies in it, or the server
does not answer. A commit without an answer may have happened, may never happen,
or may still be under way. -/
inductive Fate
  | returns
  | raises
  | dies
  | unanswered (committed : Option Bool)
deriving DecidableEq, Repr

/-- Why a call stops. -/
inductive Stop
  | refused (message : String)
  | raised
  | died
  | disconnected
deriving DecidableEq, Repr

inductive Classification
  | committed
  | notApplied
  | unknown
deriving DecidableEq, Repr

/-- The source with its transactions, and the private journals. -/
structure Machine where
  source : Database
  working : Option Database
  inFlight : Option Database
  deletions : List (List AssetRow)
  journals : String → Option Journal
  fates : List Fate

abbrev Call := EStateM Stop Machine

/-- The end of a transaction that changes rows. -/
def Machine.settle (machine : Machine) (database : Database) : Machine :=
  { machine with
    source := database
    working := none
    inFlight := none
    deletions := machine.deletions ++ [machine.source.assets.filter fun row => row ∉ database.assets] }

section Program

variable (inspection : Inspection)

/-- The fate of the next step; when none is left, all goes well. -/
def nextFate : Call Fate := do
  let machine ← get
  match machine.fates with
  | [] => pure .returns
  | fate :: rest => do
      set { machine with fates := rest }
      pure fate

/-- A step that can fail and changes nothing. -/
def point : Call Unit := do
  match ← nextFate with
  | .returns => pure ()
  | .raises => throw .raised
  | .dies => throw .died
  | .unanswered _ => throw .disconnected

def refuseUnless (condition : Prop) [Decidable condition] (message : String) : Call Unit :=
  if condition then pure () else throw (.refused message)

def reading {α : Type} : Except String α → Call α
  | .ok value => pure value
  | .error message => throw (.refused message)

/-- Two dictionaries hold the same values under the same keys. -/
def SameRows (rows other : List (String × String)) : Prop :=
  ∀ key ∈ rows.map (·.1) ++ other.map (·.1), dict (·.1) rows key = dict (·.1) other key

instance (rows other : List (String × String)) : Decidable (SameRows rows other) :=
  inferInstanceAs (Decidable (∀ key ∈ _, _))

/-- The source is the one of the plan. -/
def binding (plan : RetirementPlan) (database : Database) : Except String Unit :=
  require (database.header.serverUuid = plan.inventory.source.serverUuid ∧
    database.header.head = plan.inventory.source.head) "Retirement source UUID or head mismatch"

/-- What became of the plan, from the committed rows. -/
def classifySource (plan : RetirementPlan) (database : Database) : Except String Classification := do
  let expected := plan.inventory
  binding plan database
  require (inspection.schemaValid database.header = true) "Schema differs from its contract"
  require (inspection.visible database.header database.incoming = true) "Complete source object and cross-schema FK visibility is required"
  if incomingKeys database ≠ expected.foreignKeys then pure .unknown
  else do
    let found ← physical inspection database expected.candidates
    pure (if database.header ≠ expected.source ∨ found.kept ≠ expected.protectedManifest then .unknown
      else if found.rows = [] then .committed
      else if found.full = expected.physicalManifest ∧
          SameRows found.rows (expected.candidates.map fun row => (row.version, row.nativeRowSha256)) then .notApplied
      else .unknown)

/-- Look at the source in a read-only transaction. -/
def classify (plan : RetirementPlan) : Call Classification := do
  point
  let machine ← get
  let state ← reading (classifySource inspection plan machine.source)
  point
  pure state

/-- Publish a new journal; an existing one is never overwritten. -/
def writePrivate (path : String) (journal : Journal) : Call Unit := do
  point
  let machine ← get
  refuseUnless (machine.journals path = none) "Backup output already exists"
  set { machine with journals := Function.update machine.journals path (some journal) }
  point

/-- Replace the journal by its next phase. -/
def saveJournal (path : String) (journal : Journal) : Call Unit := do
  point
  let machine ← get
  refuseUnless (∀ existing ∈ machine.journals path, existing.planSha256 = journal.planSha256 ∧
      existing.source = journal.source ∧ existing.stoppedAt = journal.stoppedAt)
    "Application journal immutable binding changed"
  set { machine with journals := Function.update machine.journals path (some journal) }
  point

/-- Open the transaction and lock every row; a commit that is still under way
holds its locks. -/
def lockSource : Call Database := do
  point
  let machine ← get
  refuseUnless (machine.inFlight.isNone = true) "Lock wait timeout exceeded"
  set { machine with working := some machine.source }
  pure machine.source

def deleteCandidates : List Candidate → Call Unit
  | [] => pure ()
  | asset :: rest => do
      point
      let machine ← get
      let working ← reading (demand machine.working "No transaction")
      let next ← reading (deleteRow inspection working asset)
      set { machine with working := some next }
      deleteCandidates rest

def commit : Call Unit := do
  let fate ← nextFate
  let machine ← get
  let working ← reading (demand machine.working "No transaction")
  match fate with
  | .returns => set (machine.settle working)
  | .raises => throw .raised
  | .dies => throw .died
  | .unanswered (some true) => do
      set (machine.settle working)
      throw .disconnected
  | .unanswered (some false) => throw .disconnected
  | .unanswered none => do
      set { machine with working := none, inFlight := some working }
      throw .disconnected

def rollback : Call Unit := modify fun machine => { machine with working := none }

/-- What is deleted keeps to the plan, before it is committed. -/
def checkDeleted (plan : RetirementPlan) : Call Unit := do
  point
  let machine ← get
  let working ← reading (demand machine.working "No transaction")
  let found ← reading (physical inspection working plan.inventory.candidates)
  refuseUnless (found.rows = [] ∧ found.kept = plan.inventory.protectedManifest ∧ found.full = found.kept)
    "Protected source facts changed during deletion"
  refuseUnless (working.header = plan.inventory.source) "Source structure changed during deletion"

/-- The transaction of a call, between its locks and its last journal. -/
def retire (plan : RetirementPlan) (path stoppedAt : String) : Call Unit := do
  let database ← lockSource
  reading (binding plan database)
  let current ← reading (capture inspection database)
  refuseUnless (current = plan.inventory) "Source drift before deletion; make a fresh plan"
  let journal : Journal := ⟨plan.planSha256, plan.inventory.source, stoppedAt, .pending⟩
  writePrivate path journal
  deleteCandidates inspection current.candidates
  checkDeleted inspection plan
  point
  saveJournal path { journal with phase := .commitPending }
  commit
  saveJournal path { journal with phase := .committed }

/-- One call. -/
def apply (plan : RetirementPlan) (path stoppedAt : String) : Call Classification := do
  point
  let machine ← get
  match machine.journals path with
  | some previous => do
      refuseUnless (previous.planSha256 = plan.planSha256 ∧ previous.source = plan.inventory.source)
        "Application journal belongs to another plan"
      classify inspection plan
  | none => do
      refuseUnless (plan.inventory.candidates ≠ []) "Plan has no unreferenced Prompt candidates"
      point
      tryCatch (retire inspection plan path stoppedAt) fun stop => do
        -- a connection that was lost is not rolled back by the call, but by the server
        rollback
        throw stop
      let state ← classify inspection plan
      refuseUnless (state = .committed) "Post-commit source evidence is unknown; keep writers stopped"
      pure .committed

end Program

/-! Classification. -/

/-- The transaction of the plan, as it is committed. -/
structure Deleted (inspection : Inspection) (plan : RetirementPlan) (database after : Database) : Prop where
  planned : capture inspection database = .ok plan.inventory
  some : plan.inventory.candidates ≠ []
  deleted : deleteAll inspection database plan.inventory.candidates = .ok after
  checked : ∃ found, physical inspection after plan.inventory.candidates = .ok found ∧ found.rows = [] ∧
    found.kept = plan.inventory.protectedManifest

variable {inspection : Inspection} {plan : RetirementPlan} {database after : Database}

/-- The rows of the candidates are where they were planned. -/
theorem classifySource_planned (hPlanned : capture inspection database = .ok plan.inventory)
    (hSome : plan.inventory.candidates ≠ []) : classifySource inspection plan database = .ok .notApplied := by
  obtain ⟨selected, found, h⟩ := capture_ok hPlanned
  have hFound : physical inspection database plan.inventory.candidates = .ok found := by
    rw [← physical_congr h.chosen_named]
    exact h.physical
  obtain ⟨_, hRows⟩ := physical_ok h.physical
  have hPresent : found.rows ≠ [] := by
    intro hNil
    obtain ⟨named, hNamed⟩ := List.exists_mem_of_ne_nil _ hSome
    have hRow := h.named_row hNamed
    rw [hNil] at hRow
    cases hRow
  have hSame : SameRows found.rows (plan.inventory.candidates.map fun row => (row.version, row.nativeRowSha256)) := by
    intro key _
    cases hCandidate : dict (·.1) (plan.inventory.candidates.map fun row => (row.version, row.nativeRowSha256)) key with
    | some entry =>
        obtain ⟨hEntry, hKey⟩ := dict_some hCandidate
        obtain ⟨named, hNamed, rfl⟩ := List.mem_map.mp hEntry
        rw [← hKey]
        exact h.named_row hNamed
    | none =>
        cases hRow : dict (·.1) found.rows key with
        | none => rfl
        | some entry =>
            obtain ⟨hEntry, hKey⟩ := dict_some hRow
            obtain ⟨named, hNamed, hVersion⟩ := h.row_named hEntry
            refine absurd (hVersion.trans hKey) (lookup_eq_none.mp hCandidate (named.version, named.nativeRowSha256) ?_)
            exact List.mem_reverse.mpr (List.mem_map.mpr ⟨named, hNamed, rfl⟩)
  rw [classifySource]
  simp only [binding, h.source]
  rw [require_bind_pos ⟨trivial, trivial⟩, require_bind_pos h.valid.1, require_bind_pos h.valid.2,
    if_neg (not_not.mpr h.foreignKeys.symm), hFound, ok_bind]
  simp only [h.manifests.1, h.manifests.2, ne_eq, not_true_eq_false, or_self, if_false, hPresent, hSame, and_self, if_true]
  rfl

/-- The rows of the candidates are gone and everything else is as planned. -/
theorem Deleted.classified (h : Deleted inspection plan database after) :
    classifySource inspection plan after = .ok .committed := by
  obtain ⟨selected, found, hCaptured⟩ := capture_ok h.planned
  obtain ⟨_, hHeader, hIncoming, _, _⟩ := deleteAll_ok h.deleted
  obtain ⟨left, hLeft, hNone, hKept⟩ := h.checked
  have hKeys : incomingKeys after = incomingKeys database := by rw [incomingKeys, incomingKeys, hIncoming, hHeader]
  rw [classifySource]
  simp only [binding, hCaptured.source, hHeader, hIncoming]
  rw [require_bind_pos ⟨trivial, trivial⟩, require_bind_pos hCaptured.valid.1, require_bind_pos hCaptured.valid.2,
    if_neg (not_not.mpr (hKeys.trans hCaptured.foreignKeys.symm)), hLeft, ok_bind]
  simp only [hKept, hNone, ne_eq, not_true_eq_false, or_self, if_false, if_true]
  rfl

/-- A plan is not the inventory of what its own transaction left. -/
theorem Deleted.outdated (h : Deleted inspection plan database after) :
    capture inspection after ≠ .ok plan.inventory := by
  intro hAgain
  obtain ⟨_, found, hCaptured⟩ := capture_ok h.planned
  obtain ⟨_, again, hRecaptured⟩ := capture_ok hAgain
  obtain ⟨_, _, _, hLength, _⟩ := deleteAll_ok h.deleted
  have hBefore := (physical_ok hCaptured.physical).1
  have hAfter := (physical_ok hRecaptured.physical).1
  have hSame : found.full = again.full := hCaptured.manifests.1.symm.trans hRecaptured.manifests.1
  have hCount : 0 < plan.inventory.candidates.length := List.length_pos_iff.mpr h.some
  rw [hSame] at hBefore
  omega

end PromptRetirement

end QsAi
