import QsAi.Foundation.DatabaseSession
import QsAi.Foundation.Raising
import Mathlib.Data.List.Forall2

/-! The original root of an execution. One frozen write and the witness of its
execution are committed together; a call that lost track of its transaction reads
fresh evidence, and only a completed rollback may ask for an abort. The store of
the executions is a parameter, known by what it documents. -/
namespace QsAi

open DatabaseSession Raising

namespace TransactionRoot

inductive LocalOutcome
  | committed
  | aborted
  | unknown
deriving DecidableEq

/-- What one reference's evidence decides. -/
inductive Decision
  | commit
  | rollback
deriving DecidableEq

inductive IsolationLevel
  | readCommitted
  | repeatableRead

/-- What one execution makes durable: business rows and archives, and the
witness that decides it. -/
inductive Item
  | record (key : Nat)
  | witness
deriving DecidableEq

structure Execution (Reference : Type) where
  owned : Bool
  references : List Reference
  prepared : references ≠ []

/-- The store of prepared executions. -/
structure TransactionStore (Reference Evidence : Type) where
  evidence : Database Item → Reference → Evidence
  resolve : Reference → Evidence → Option Decision
  decideLocal : List Reference → List Evidence → LocalOutcome

/-- Evidence reports a witness exactly when it is durable and an abort when one
is on record without a witness; a decision needs the same evidence for every
reference. -/
structure TransactionStore.Documented {Reference Evidence : Type} (store : TransactionStore Reference Evidence) : Prop where
  commit : ∀ database ref, store.resolve ref (store.evidence database ref) = some .commit ↔ .witness ∈ database.durable
  rollback : ∀ database ref, store.resolve ref (store.evidence database ref) = some .rollback ↔
    database.aborted = true ∧ .witness ∉ database.durable
  committed : ∀ references evidence, references ≠ [] → (store.decideLocal references evidence = .committed ↔
    List.Forall₂ (fun ref found => store.resolve ref found = some .commit) references evidence)
  aborted : ∀ references evidence, references ≠ [] → (store.decideLocal references evidence = .aborted ↔
    List.Forall₂ (fun ref found => store.resolve ref found = some .rollback) references evidence)

/-- How one awaited step ends. A raise, a timeout and a cancellation look the
same to the handlers, and can leave the transaction broken. -/
inductive Fate
  | done
  | raised (broken : Bool)
deriving DecidableEq

/-- The witness was staged or not when the step raised. -/
inductive WitnessFate
  | done
  | raised (staged broken : Bool)

/-- A commit whose acknowledgement is lost can have landed all the same. -/
inductive CommitFate
  | done
  | raised (landing : Landing)

/-- An abort answers whether it is on record, or raises with or without it. -/
inductive AbortFate
  | done (success : Bool)
  | raised (recorded : Bool)

/-- One evidence read, and what others do to the database before it. -/
structure Reading where
  others : List Move
  ended : Bool

/-- Everything a call can meet: the end of every awaited step, the statements of
the frozen write and the number of them it got through when it raised. -/
structure World where
  opened : Fate
  begun : Fate
  isolated : Fate
  bound : Fate
  write : List (Statement Item)
  interrupted : Option Nat
  witnessed : WitnessFate
  committed : CommitFate
  rolledBack : Fate
  closed : Fate
  readings : Nat → Reading
  others : List Move
  aborted : AbortFate

/-- What a call keeps: its session, and how far it got. -/
structure Root where
  session : Session Item := {}
  committing : Bool := false
  rolledBack : Bool := false
  integrityLost : Bool := false

abbrev Host := Program Root

/-- Wait for a step that changes nothing else. -/
def await : Fate → Host Unit
  | .done => pure ()
  | .raised broken => do
      modify fun root => { root with session := if broken then root.session.fault else root.session }
      throw ()

def World.performed (world : World) : List (Statement Item) :=
  match world.interrupted with
  | none => world.write
  | some count => world.write.take count

/-- The frozen write, as far as it gets. -/
def write (world : World) : Host Unit := do
  modify fun root => { root with session := root.session.performAll world.performed }
  if world.interrupted = none then pure () else throw ()

/-- Stages the witness only. -/
def commitWitness : WitnessFate → Host Unit
  | .done => modify fun root => { root with session := root.session.stage .witness }
  | .raised staged broken => do
      modify fun root => { root with session := if staged then root.session.stage .witness else root.session }
      await (.raised broken)

def commit : CommitFate → Host Unit
  | .done => modify fun root => { root with session := root.session.commit .now }
  | .raised landing => do
      modify fun root => { root with session := root.session.commit landing }
      throw ()

def rollback (fate : Fate) : Host Unit := do
  modify fun root => { root with session := root.session.rollback }
  await fate

/-- Set the isolation level, where the caller asks for one. -/
def isolate (world : World) (isolationLevel : Option IsolationLevel) : Host Unit :=
  if isolationLevel.isSome then await world.isolated else pure ()

/-- The check that follows the write: it did not replace or close the root. -/
def checkOriginal (original : Option Nat) : Host Unit := do
  let root ← get
  if root.session.Intact original then pure ()
  else do
    set { root with integrityLost := true }
    throw ()

/-- The work inside the root, up to its commit. -/
def work (world : World) (isolationLevel : Option IsolationLevel) (original : Option Nat) : Host LocalOutcome := do
  isolate world isolationLevel
  await world.bound
  write world
  checkOriginal original
  commitWitness world.witnessed
  modify fun root => { root with committing := true }
  commit world.committed
  pure .committed

/-- Roll back a root that is still the original one. -/
def rollbackOriginal (world : World) (original : Option Nat) : Host Unit := do
  modify fun root => { root with integrityLost := root.integrityLost || !decide (root.session.Intact original) }
  let root ← get
  if root.integrityLost then pure ()
  else do
    rollback world.rolledBack
    modify fun root => { root with rolledBack := true }

/-- The inner handler, which raises again. -/
def abandon (world : World) (original : Option Nat) : Host LocalOutcome := do
  let root ← get
  if root.committing then throw ()
  else do
    rollbackOriginal world original
    throw ()

/-- Leaving the root rolls back what is left of the session. -/
def close (fate : Fate) : Host Unit := rollback fate

/-- Inside the opened root. -/
def inside (world : World) (isolationLevel : Option IsolationLevel) : Host LocalOutcome := do
  await world.begun
  modify fun root => { root with session := root.session.enter }
  let original := (← get).session.transaction
  tryCatch (work world isolationLevel original) fun _ => abandon world original

/-- The opened root, closed on every way out. -/
def attempt (world : World) (isolationLevel : Option IsolationLevel) : Host LocalOutcome := do
  await world.opened
  let outcome ← tryCatch (inside world isolationLevel) fun _ => do
    close world.closed
    throw ()
  close world.closed
  pure outcome

/-- Others go on between two reads. -/
def others (moves : List Move) : Host Unit :=
  modify fun root => { root with session :=
    { root.session with database := root.session.database.moves .witness moves } }

section
variable {Reference Evidence : Type}

/-- Fresh evidence for every reference, one read after another. -/
def readEvidence (store : TransactionStore Reference Evidence) (world : World) :
    Nat → List Reference → Host (List Evidence)
  | _, [] => pure []
  | n, ref :: rest => do
      others (world.readings n).others
      let root ← get
      if (world.readings n).ended then do
        let later ← readEvidence store world (n + 1) rest
        pure (store.evidence root.session.database ref :: later)
      else throw ()

/-- The store's own abort of the execution. -/
def abort (world : World) : Host Bool := do
  others world.others
  match world.aborted with
  | .done success => do
      others (if success then [.abort] else [])
      pure success
  | .raised recorded => do
      others (if recorded then [.abort] else [])
      throw ()

/-- The outer handler: what a call that raised may still say. -/
def settle (store : TransactionStore Reference Evidence) (execution : Execution Reference) (world : World) :
    Host LocalOutcome := do
  let root ← get
  if root.committing ∨ root.integrityLost then
    tryCatch (do
      let evidence ← readEvidence store world 0 execution.references
      pure (store.decideLocal execution.references evidence)) fun _ => pure .unknown
  else if root.rolledBack then
    tryCatch (do
      let success ← abort world
      pure (if success then .aborted else .unknown)) fun _ => pure .unknown
  else pure .unknown

/-- Invoke one frozen write on the host root, then read fresh proof if needed. -/
def commitOriginal (store : TransactionStore Reference Evidence) (execution : Execution Reference) (world : World)
    (isolationLevel : Option IsolationLevel) : Host LocalOutcome :=
  if execution.owned then tryCatch (attempt world isolationLevel) fun _ => settle store execution world
  else throw ()

end

/-- The write, the witness and its archives are durable after a commit; after an
abort nothing of the execution is durable or can become so. -/
def Truthful (world : World) (outcome : LocalOutcome) (database : Database Item) : Prop :=
  match outcome with
  | .committed => (∀ item ∈ items world.write, item ∈ database.durable) ∧ .witness ∈ database.durable
  | .aborted => database.Void
  | .unknown => True

/-- The session as the frozen write leaves it, in a fresh root. -/
def World.written (world : World) : Session Item := Session.performAll (Session.enter {}) world.performed

/-- The call gets to the write, and the write leaves the root it was given. -/
def World.Replaces (world : World) (isolationLevel : Option IsolationLevel) : Prop :=
  world.opened = .done ∧ world.begun = .done ∧ (isolationLevel.isSome → world.isolated = .done) ∧
    world.bound = .done ∧ ¬ world.written.Intact (some 0)

/-- What others have done when the first `count` evidence reads are over. -/
def World.movesUntil (world : World) (count : Nat) : List Move :=
  (List.range count).flatMap fun n => (world.readings n).others

/-- The write left the root, the evidence of every reference is read, and what
the write had committed on its own does not match it: rows beside a recorded
abort, or a witness without all its rows. -/
structure World.Betrays {Reference : Type} (world : World) (execution : Execution Reference)
    (isolationLevel : Option IsolationLevel) : Prop where
  replaces : world.Replaces isolationLevel
  read : ∀ n < execution.references.length, (world.readings n).ended = true
  mismatch :
    ((world.written.database.moves .witness (world.movesUntil 1)).Refused .witness ∧
      (world.written.database.moves .witness (world.movesUntil 1)).durable ≠ []) ∨
    (.witness ∈ (world.written.database.moves .witness (world.movesUntil 1)).durable ∧
      ∃ item ∈ items world.write,
        item ∉ (world.written.database.moves .witness (world.movesUntil execution.references.length)).durable)

@[simp] theorem ends_await_done {root : Root} {returns : Unit → Root → Prop} {raises : Root → Prop} :
    Ends (await .done) root returns raises ↔ returns () root := Iff.rfl

@[simp] theorem ends_await_raised {root : Root} {returns : Unit → Root → Prop} {raises : Root → Prop} (broken : Bool) :
    Ends (await (.raised broken)) root returns raises ↔
      raises { root with session := if broken then root.session.fault else root.session } := Iff.rfl

/-- A step changes nothing but the state of the transaction when it raises. -/
theorem ends_await {root : Root} {returns : Unit → Root → Prop} {raises : Root → Prop} (fate : Fate)
    (hDone : fate = .done → returns () root)
    (hRaised : fate ≠ .done → ∀ session : Session Item, session.database = root.session.database →
      raises { root with session := session }) : Ends (await fate) root returns raises := by
  cases fate with
  | done => exact hDone rfl
  | raised broken =>
      rw [ends_await_raised]
      cases broken with
      | false => exact hRaised nofun root.session rfl
      | true => exact hRaised nofun root.session.fault rfl

/-- The database after the commit of the whole execution. -/
def World.sent (world : World) (landing : Landing) : Database Item :=
  Database.commit {} (items world.write ++ [.witness]) landing

/-- How the work of a call can end without an outcome: nothing was sent and the
write kept the root, the commit was sent, or the write left the root. -/
inductive World.Left (world : World) (isolationLevel : Option IsolationLevel) (lost : Prop) (root : Root) : Prop
  | quiet (kept : ¬ world.Replaces isolationLevel) (database : root.session.database = {})
      (committing : root.committing = false)
  | sent (kept : ¬ world.Replaces isolationLevel) (landing : Landing)
      (database : root.session.database = world.sent landing) (committing : root.committing = true)
  | replaced (replaces : world.Replaces isolationLevel) (database : root.session.database = world.written.database)
      (committing : root.committing = false) (noticed : lost)

/-- The root as the body of a call finds it. -/
def fresh : Root := { session := Session.enter {} }

/-- A write that kept its root was performed on an otherwise untouched database. -/
theorem World.written_kept {world : World} (h : world.written.Intact (some 0)) :
    world.written = { Session.enter ({} : Session Item) with staged := items world.performed } := by
  unfold World.written at h ⊢
  have hBegun : 0 < (Session.enter ({} : Session Item)).begun := by decide
  have hEnd := Session.performAll_intact hBegun h
  rw [hEnd]
  rfl

theorem World.performed_whole {world : World} (h : world.interrupted = none) : world.performed = world.write := by
  unfold performed
  rw [h]

/-- A write without an exception passes; an interrupted one raises. Either way
the session is the one the performed statements leave. -/
theorem ends_write {world : World} {returns : Unit → Root → Prop} {raises : Root → Prop}
    (hDone : world.interrupted = none → returns () { fresh with session := world.written })
    (hRaised : world.interrupted ≠ none → raises { fresh with session := world.written }) :
    Ends (write world) fresh returns raises := by
  unfold write
  rw [ends_bind, ends_modify, ends_ite]
  cases hStop : world.interrupted with
  | none => exact hDone hStop
  | some count => exact hRaised (by simp [hStop])

section
variable {world : World} {isolationLevel : Option IsolationLevel}

/-- Staging the witness, whether it raises or not, sends nothing. -/
theorem ends_commitWitness {root : Root} (fate : WitnessFate) {returns : Unit → Root → Prop} {raises : Root → Prop}
    (hDone : fate = .done → returns () { root with session := root.session.stage .witness })
    (hRaised : ∀ session : Session Item, session.database = root.session.database →
      raises { root with session := session }) : Ends (commitWitness fate) root returns raises := by
  have hStage : (root.session.stage .witness).database = root.session.database := by
    unfold Session.stage
    split
    · exact Session.ensure_database _
    · rfl
  cases fate with
  | done => exact hDone rfl
  | raised staged broken =>
      simp only [commitWitness, ends_bind, ends_modify, ends_await_raised]
      apply hRaised
      cases staged with
      | false => cases broken <;> rfl
      | true => cases broken <;> exact hStage

/-- The commit of a session that kept its root sends the write and the witness. -/
theorem ends_commit (fate : CommitFate) (hWhole : world.interrupted = none) (hKept : world.written.Intact (some 0))
    {returns : Unit → Root → Prop} {raises : Root → Prop} {root : Root}
    (hRoot : root.session = world.written.stage .witness)
    (hDone : ∀ session : Session Item, session.database = world.sent .now → returns () { root with session := session })
    (hRaised : ∀ landing, ∀ session : Session Item, session.database = world.sent landing →
      raises { root with session := session }) : Ends (commit fate) root returns raises := by
  have hSent (landing : Landing) : (root.session.commit landing).database = world.sent landing := by
    rw [hRoot, World.written_kept hKept, World.performed_whole hWhole]
    simp [Session.stage, Session.commit, Session.ensure, Session.enter, World.sent]
  cases fate with
  | done => exact hDone _ (hSent .now)
  | raised landing => exact hRaised landing _ (hSent landing)

/-- The work commits everything, or leaves the call as one of the three cases
says; the flag of a lost root is not set yet. -/
theorem work_ends :
    world.opened = .done → world.begun = .done →
    Ends (work world isolationLevel (some 0)) fresh
      (fun outcome root => outcome = .committed ∧ ¬ world.Replaces isolationLevel ∧
        root.session.database = world.sent .now ∧ root.committing = true)
      (fun root => world.Left isolationLevel (¬ root.session.Intact (some 0) ∨ root.integrityLost = true) root) := by
  intro hOpened hBegun
  unfold work
  rw [ends_bind]
  have hIsolated : Ends (isolate world isolationLevel) fresh
      (fun _ root => root = fresh ∧ (isolationLevel.isSome → world.isolated = .done))
      (fun root => world.Left isolationLevel (¬ root.session.Intact (some 0) ∨ root.integrityLost = true) root) := by
    unfold isolate
    rw [ends_ite]
    split
    · refine ends_await _ (fun hDone => ⟨rfl, fun _ => hDone⟩) fun hRaised session hDatabase => ?_
      exact .quiet (fun h => hRaised (h.2.2.1 ‹_›)) hDatabase rfl
    · exact ⟨rfl, fun h => absurd h ‹_›⟩
  apply hIsolated.mono
  · rintro _ _ ⟨rfl, hIsolation⟩
    rw [ends_bind]
    refine ends_await _ (fun hBound => ?_) fun hRaised session hDatabase =>
      .quiet (fun h => hRaised h.2.2.2.1) hDatabase rfl
    rw [ends_bind]
    have hReplaces : world.Replaces isolationLevel ↔ ¬ world.written.Intact (some 0) :=
      ⟨fun h => h.2.2.2.2, fun h => ⟨hOpened, hBegun, hIsolation, hBound, h⟩⟩
    apply ends_write
    · intro hWhole
      simp only [checkOriginal, ends_bind, ends_get, ends_ite, ends_pure, ends_modify, ends_throw, ends_set]
      split
      · rename_i hKept
        have hNot : ¬ world.Replaces isolationLevel := fun h => hReplaces.mp h hKept
        apply ends_commitWitness
        · intro _
          apply ends_commit world.committed hWhole hKept rfl
          · intro session hDatabase
            exact ⟨trivial, hNot, hDatabase, rfl⟩
          · intro landing session hDatabase
            exact .sent hNot landing hDatabase rfl
        · intro session hDatabase
          refine .quiet hNot (hDatabase.trans ?_) rfl
          exact congrArg Session.database (World.written_kept hKept)
      · exact .replaced (hReplaces.mpr ‹_›) rfl rfl (Or.inr trivial)
    · intro _
      by_cases hKept : world.written.Intact (some 0)
      · exact .quiet (fun h => hReplaces.mp h hKept) (congrArg Session.database (World.written_kept hKept)) rfl
      · exact .replaced (hReplaces.mpr hKept) rfl rfl (Or.inl hKept)
  · exact fun root h => h

/-- The inner handler leaves the database as it is and notices a lost root. -/
theorem abandon_ends {root : Root}
    (h : world.Left isolationLevel (¬ root.session.Intact (some 0) ∨ root.integrityLost = true) root) :
    Ends (abandon world (some 0)) root (fun _ _ => False)
      (fun root => world.Left isolationLevel (root.integrityLost = true) root) := by
  have hRollback (flag : Bool) (hKept : ¬ world.Replaces isolationLevel) (hDatabase : root.session.database = {}) :
      Ends (rollback world.rolledBack) { root with integrityLost := flag, committing := false }
        (fun _ root => root.session.database = {} ∧ root.committing = false)
        (fun root => world.Left isolationLevel (root.integrityLost = true) root) := by
    unfold rollback
    rw [ends_bind, ends_modify]
    apply ends_await
    · exact fun _ => ⟨hDatabase, rfl⟩
    · exact fun _ session hSession => .quiet hKept (hSession.trans hDatabase) rfl
  unfold abandon
  simp only [ends_bind, ends_get, ends_ite, ends_throw]
  cases h with
  | quiet hKept hDatabase hCommitting =>
      rw [if_neg (by simp [hCommitting])]
      simp only [rollbackOriginal, ends_bind, ends_modify, ends_get, ends_ite, ends_pure]
      have hRoot : root = { root with committing := false } := by rw [← hCommitting]
      split
      · exact .quiet hKept hDatabase hCommitting
      · rw [hRoot]
        apply (hRollback _ hKept hDatabase).mono
        · exact fun _ next hNext => .quiet hKept hNext.1 hNext.2
        · exact fun _ hNext => hNext
  | sent hKept landing hDatabase hCommitting =>
      rw [if_pos hCommitting]
      exact .sent hKept landing hDatabase hCommitting
  | replaced hReplaces hDatabase hCommitting hLost =>
      rw [if_neg (by simp [hCommitting])]
      simp only [rollbackOriginal, ends_bind, ends_modify, ends_get, ends_ite, ends_pure]
      have hNoticed : (root.integrityLost || !decide (root.session.Intact (some 0))) = true := by
        rcases hLost with hLost | hLost <;> simp [hLost]
      rw [if_pos hNoticed]
      exact .replaced hReplaces hDatabase hCommitting hNoticed

/-- Closing the root changes none of this. -/
theorem World.Left.close {root : Root} (h : world.Left isolationLevel (root.integrityLost = true) root) (session : Session Item)
    (hSession : session.database = root.session.database) :
    world.Left isolationLevel (root.integrityLost = true) { root with session := session } := by
  cases h with
  | quiet hKept hDatabase hCommitting => exact .quiet hKept (hSession.trans hDatabase) hCommitting
  | sent hKept landing hDatabase hCommitting => exact .sent hKept landing (hSession.trans hDatabase) hCommitting
  | replaced hReplaces hDatabase hCommitting hLost =>
      exact .replaced hReplaces (hSession.trans hDatabase) hCommitting hLost

/-- The whole root: an acknowledged commit of everything, or one of the cases. -/
theorem attempt_ends :
    Ends (attempt world isolationLevel) {}
      (fun outcome root => outcome = .committed ∧ ¬ world.Replaces isolationLevel ∧
        root.session.database = world.sent .now)
      (fun root => world.Left isolationLevel (root.integrityLost = true) root) := by
  unfold attempt
  rw [ends_bind]
  refine ends_await _ (fun hOpened => ?_) fun hRaised session hDatabase =>
    .quiet (fun h => hRaised h.1) hDatabase rfl
  have hInside : Ends (inside world isolationLevel) {}
      (fun outcome root => outcome = .committed ∧ ¬ world.Replaces isolationLevel ∧
        root.session.database = world.sent .now ∧ root.committing = true)
      (fun root => world.Left isolationLevel (root.integrityLost = true) root) := by
    unfold inside
    rw [ends_bind]
    refine ends_await _ (fun hBegun => ?_) fun hRaised session hDatabase =>
      .quiet (fun h => hRaised h.2.1) hDatabase rfl
    simp only [ends_bind, ends_modify, ends_get, ends_tryCatch]
    apply (work_ends hOpened hBegun).mono
    · exact fun _ _ h => h
    · exact fun root h => (abandon_ends h).mono (fun _ _ hNever => hNever.elim) fun _ hNext => hNext
  rw [ends_bind, ends_tryCatch]
  apply hInside.mono
  · rintro outcome root ⟨hOutcome, hKept, hDatabase, hCommitting⟩
    simp only [TransactionRoot.close, rollback, ends_bind, ends_modify, ends_pure]
    apply ends_await
    · exact fun _ => ⟨hOutcome, hKept, hDatabase⟩
    · exact fun _ session hSession => .sent hKept .now (hSession.trans hDatabase) hCommitting
  · intro root h
    simp only [TransactionRoot.close, rollback, ends_bind, ends_modify, ends_throw]
    apply ends_await
    · exact fun _ => h.close _ rfl
    · exact fun _ session hSession => h.close session hSession

end

section
variable {Reference Evidence : Type} {store : TransactionStore Reference Evidence} {world : World}
  {isolationLevel : Option IsolationLevel}

/-- The evidence of every reference, with what others do before each read. -/
def evidenceAt (store : TransactionStore Reference Evidence) (world : World) :
    Database Item → Nat → List Reference → List Evidence
  | _, _, [] => []
  | database, n, ref :: rest =>
      store.evidence (database.moves .witness (world.readings n).others) ref ::
        evidenceAt store world (database.moves .witness (world.readings n).others) (n + 1) rest

/-- What others do from the read numbered `n` on, during `count` reads. -/
def World.movesFrom (world : World) (n count : Nat) : List Move :=
  (List.range' n count).flatMap fun k => (world.readings k).others

theorem World.movesFrom_succ (n count : Nat) :
    world.movesFrom n (count + 1) = (world.readings n).others ++ world.movesFrom (n + 1) count := by
  simp [movesFrom, List.range'_succ]

theorem World.movesUntil_eq (count : Nat) : world.movesUntil count = world.movesFrom 0 count := by
  simp [movesUntil, movesFrom, List.range_eq_range']

/-- Reading ends with the evidence when every read does, and raises otherwise. -/
theorem readEvidence_ends (references : List Reference) (n : Nat) (root : Root) :
    Ends (readEvidence store world n references) root
      (fun evidence next => (∀ k < references.length, (world.readings (n + k)).ended = true) ∧
        evidence = evidenceAt store world root.session.database n references ∧
        next.session.database = root.session.database.moves .witness (world.movesFrom n references.length))
      (fun _ => ∃ k < references.length, (world.readings (n + k)).ended = false) := by
  induction references generalizing n root with
  | nil => exact ⟨nofun, rfl, rfl⟩
  | cons ref rest ih =>
      simp only [readEvidence, others, ends_bind, ends_modify, ends_get, ends_ite, ends_pure, ends_throw]
      split
      · rename_i hRead
        apply (ih _ _).mono
        · rintro later next ⟨hReads, hLater, hNext⟩
          refine ⟨fun k hk => ?_, by rw [hLater, evidenceAt], ?_⟩
          · cases k with
            | zero => exact hRead
            | succ k => simpa [Nat.add_assoc, Nat.add_comm 1 k] using hReads k (by simpa using hk)
          · rw [hNext, List.length_cons, World.movesFrom_succ, Database.moves_append]
        · rintro _ ⟨k, hk, hMissed⟩
          exact ⟨k + 1, by simpa using hk, by simpa [Nat.add_assoc, Nat.add_comm 1 k] using hMissed⟩
      · rename_i hMissed
        exact ⟨0, by simp, by simpa using hMissed⟩

/-- A durable witness is what every later read reports. -/
theorem evidenceAt_commit (hStore : store.Documented) (references : List Reference) (n : Nat) {database : Database Item}
    (hWitness : .witness ∈ database.durable) :
    List.Forall₂ (fun ref found => store.resolve ref found = some .commit) references
      (evidenceAt store world database n references) := by
  induction references generalizing n database with
  | nil => exact .nil
  | cons ref rest ih =>
      have hStill : .witness ∈ (database.moves .witness (world.readings n).others).durable :=
        Database.durable_moves hWitness _
      exact .cons ((hStore.commit _ ref).mpr hStill) (ih (n + 1) hStill)

/-- A recorded abort is what every later read reports. -/
theorem evidenceAt_rollback (hStore : store.Documented) (references : List Reference) (n : Nat) {database : Database Item}
    (hRefused : database.Refused .witness) :
    List.Forall₂ (fun ref found => store.resolve ref found = some .rollback) references
      (evidenceAt store world database n references) := by
  induction references generalizing n with
  | nil => exact .nil
  | cons ref rest ih =>
      simp only [evidenceAt, hRefused.moves_eq]
      exact .cons ((hStore.rollback _ ref).mpr ⟨hRefused.1, hRefused.2.2⟩) (ih (n + 1))

/-- The first read decides: later ones cannot contradict it. -/
theorem decideLocal_evidenceAt (hStore : store.Documented) {references : List Reference} (hSome : references ≠ [])
    (n : Nat) {database : Database Item} (hStart : database.aborted = false) :
    (store.decideLocal references (evidenceAt store world database n references) = .committed ↔
      .witness ∈ (database.moves .witness (world.readings n).others).durable) ∧
    (store.decideLocal references (evidenceAt store world database n references) = .aborted ↔
      (database.moves .witness (world.readings n).others).Refused .witness) := by
  rw [hStore.committed _ _ hSome, hStore.aborted _ _ hSome]
  cases references with
  | nil => exact absurd rfl hSome
  | cons ref rest =>
      simp only [evidenceAt, List.forall₂_cons]
      constructor
      · constructor
        · exact fun h => (hStore.commit _ ref).mp h.1
        · exact fun h => ⟨(hStore.commit _ ref).mpr h, evidenceAt_commit hStore rest (n + 1) h⟩
      · constructor
        · exact fun h => Database.refused_moves hStart _ ((hStore.rollback _ ref).mp h.1).1
        · exact fun h => ⟨(hStore.rollback _ ref).mpr ⟨h.1, h.2.2⟩, evidenceAt_rollback hStore rest (n + 1) h⟩

/-- Whether an outcome and a database agree, in every case but a lost root. -/
theorem World.sent_truthful {landing : Landing} {first rest : List Move} :
    (.witness ∈ ((world.sent landing).moves .witness first).durable →
      Truthful world .committed (((world.sent landing).moves .witness first).moves .witness rest)) ∧
    (((world.sent landing).moves .witness first).Refused .witness →
      Truthful world .aborted (((world.sent landing).moves .witness first).moves .witness rest)) := by
  have hWhole : ∀ moves : List Move, ∀ database : Database Item,
      database.durable = items world.write ++ [.witness] ∧ database.inFlight = [] ∨
        database.durable = [] ∧ (database.inFlight = items world.write ++ [.witness] ∨ database.inFlight = []) →
      (database.moves .witness moves).durable = items world.write ++ [.witness] ∧ (database.moves .witness moves).inFlight = [] ∨
        (database.moves .witness moves).durable = [] ∧
          ((database.moves .witness moves).inFlight = items world.write ++ [.witness] ∨
            (database.moves .witness moves).inFlight = []) := by
    intro moves
    induction moves with
    | nil => exact fun _ h => h
    | cons other moves ih =>
        intro database h
        apply ih
        cases other with
        | land => rcases h with ⟨hDurable, hFlight⟩ | ⟨hDurable, hFlight | hFlight⟩ <;> simp [Database.move, hDurable, hFlight]
        | abort => rcases h with ⟨hDurable, hFlight⟩ | ⟨hDurable, hFlight | hFlight⟩ <;> simp [Database.move, hDurable, hFlight]
  have hSent := hWhole first (world.sent landing) (by cases landing <;> simp [World.sent, Database.commit])
  constructor
  · intro hWitness
    rcases hSent with ⟨hDurable, -⟩ | ⟨hDurable, -⟩
    · have hStill : ∀ item ∈ items world.write ++ [.witness],
          item ∈ (((world.sent landing).moves .witness first).moves .witness rest).durable :=
        fun item hItem => Database.durable_moves (by rw [hDurable]; exact hItem) rest
      exact ⟨fun item hItem => hStill item (by simp [hItem]), hStill .witness (by simp)⟩
    · rw [hDurable] at hWitness
      cases hWitness
  · intro hRefused
    rw [hRefused.moves_eq]
    rcases hSent with ⟨hDurable, -⟩ | ⟨hDurable, -⟩
    · exact absurd (by rw [hDurable]; simp) hRefused.2.2
    · exact ⟨hDurable, hRefused.2.1⟩

/-- What others do after the first read. -/
theorem World.moves_split (execution : Execution Reference) (database : Database Item) :
    database.moves .witness (world.movesUntil execution.references.length) =
      (database.moves .witness (world.movesUntil 1)).moves .witness
        (world.movesFrom 1 (execution.references.length - 1)) := by
  obtain ⟨count, hCount⟩ := Nat.exists_eq_succ_of_ne_zero
    (fun h => execution.prepared (List.length_eq_zero_iff.mp h))
  rw [hCount, World.movesUntil_eq, World.movesUntil_eq, ← Database.moves_append, World.movesFrom_succ]
  simp [World.movesFrom]

/-- A call that was committing or lost its root says what the first read of the
evidence decides, or nothing. -/
theorem settle_evidence_ends (hStore : store.Documented) (execution : Execution Reference) {root : Root}
    (hRoot : root.committing = true ∨ root.integrityLost = true) (hStart : root.session.database.aborted = false) :
    Ends (settle store execution world) root
      (fun outcome next =>
        (outcome = .unknown ∧ ∃ k < execution.references.length, (world.readings k).ended = false) ∨
        ((∀ k < execution.references.length, (world.readings k).ended = true) ∧
          next.session.database = root.session.database.moves .witness (world.movesUntil execution.references.length) ∧
          (outcome = .committed ↔ .witness ∈ (root.session.database.moves .witness (world.movesUntil 1)).durable) ∧
          (outcome = .aborted ↔ (root.session.database.moves .witness (world.movesUntil 1)).Refused .witness)))
      (fun _ => False) := by
  simp only [settle, ends_bind, ends_get, ends_ite, ends_tryCatch, ends_pure]
  rw [if_pos hRoot]
  apply (readEvidence_ends execution.references 0 root).mono
  · rintro evidence next ⟨hReads, rfl, hNext⟩
    right
    have hFirst : world.movesUntil 1 = (world.readings 0).others := by simp [World.movesUntil]
    rw [World.movesUntil_eq execution.references.length, hFirst]
    obtain ⟨hCommitted, hAborted⟩ := @decideLocal_evidenceAt _ _ _ world hStore _ execution.prepared 0 _ hStart
    exact ⟨by simpa using hReads, hNext, hCommitted, hAborted⟩
  · rintro next ⟨k, hk, hMissed⟩
    exact Or.inl ⟨trivial, k, hk, by simpa using hMissed⟩

/-- A call whose database holds nothing of the execution says nothing wrong. -/
theorem settle_quiet_ends (hStore : store.Documented) (execution : Execution Reference) {root : Root}
    (hDatabase : root.session.database = {}) :
    Ends (settle store execution world) root
      (fun outcome next => Truthful world outcome next.session.database) (fun _ => False) := by
  have hVoid : ∀ moves : List Move, (({} : Database Item).moves .witness moves).Void := fun moves =>
    Database.void_moves ⟨rfl, rfl⟩ moves
  by_cases hRoot : root.committing = true ∨ root.integrityLost = true
  · apply (settle_evidence_ends hStore execution hRoot (by rw [hDatabase])).mono
    · rintro outcome next (⟨rfl, -⟩ | ⟨-, hNext, hCommitted, hAborted⟩)
      · exact trivial
      · rw [hDatabase] at hNext hCommitted hAborted
        rw [hNext]
        cases outcome with
        | committed =>
            have hThere := hCommitted.mp rfl
            rw [(hVoid _).1] at hThere
            cases hThere
        | aborted => exact hVoid _
        | unknown => exact trivial
    · exact fun _ h => h
  · simp only [settle, ends_bind, ends_get, ends_ite, ends_tryCatch, ends_pure]
    rw [if_neg hRoot]
    split
    · simp only [abort, ends_bind, others, ends_modify, hDatabase]
      cases world.aborted with
      | done success =>
          simp only [ends_bind, ends_modify, ends_pure]
          cases success with
          | false => exact trivial
          | true =>
              rw [← Database.moves_append]
              exact hVoid _
      | raised recorded => exact trivial
    · exact trivial

/-- A call whose commit was sent says the truth about it. -/
theorem settle_sent_ends (hStore : store.Documented) (execution : Execution Reference) {root : Root} {landing : Landing}
    (hDatabase : root.session.database = world.sent landing) (hCommitting : root.committing = true) :
    Ends (settle store execution world) root
      (fun outcome next => Truthful world outcome next.session.database) (fun _ => False) := by
  have hStart : root.session.database.aborted = false := by
    rw [hDatabase]
    cases landing <;> rfl
  apply (settle_evidence_ends hStore execution (Or.inl hCommitting) hStart).mono
  · rintro outcome next (⟨rfl, -⟩ | ⟨-, hNext, hCommitted, hAborted⟩)
    · exact trivial
    · rw [hNext, World.moves_split]
      rw [hDatabase] at hCommitted hAborted ⊢
      cases outcome with
      | committed => exact World.sent_truthful.1 (hCommitted.mp rfl)
      | aborted => exact World.sent_truthful.2 (hAborted.mp rfl)
      | unknown => exact trivial
  · exact fun _ h => h

/-- A call whose write left the root says the truth unless what the write
committed by itself does not match the evidence. -/
theorem settle_replaced_ends (hStore : store.Documented) (execution : Execution Reference) {root : Root}
    (hReplaces : world.Replaces isolationLevel) (hDatabase : root.session.database = world.written.database)
    (hLost : root.integrityLost = true) :
    Ends (settle store execution world) root
      (fun outcome next => Truthful world outcome next.session.database ↔ ¬ world.Betrays execution isolationLevel)
      (fun _ => False) := by
  have hStart : root.session.database.aborted = false := by
    rw [hDatabase]
    exact Session.performAll_aborted _ _
  apply (settle_evidence_ends hStore execution (Or.inr hLost) hStart).mono
  · rintro outcome next (⟨rfl, k, hk, hMissed⟩ | ⟨hReads, hNext, hCommitted, hAborted⟩)
    · refine ⟨fun _ hBetrays => ?_, fun _ => trivial⟩
      rw [hBetrays.read k hk] at hMissed
      cases hMissed
    · rw [hDatabase] at hNext hCommitted hAborted
      rw [hNext]
      cases outcome with
      | committed =>
          have hWitness := hCommitted.mp rfl
          have hStill := @Database.durable_moves _ _ Item.witness _ _ hWitness
            (world.movesFrom 1 (execution.references.length - 1))
          rw [← World.moves_split] at hStill
          constructor
          · rintro ⟨hAll, -⟩ hBetrays
            rcases hBetrays.mismatch with ⟨hRefused, -⟩ | ⟨-, item, hItem, hMissing⟩
            · exact hRefused.2.2 hWitness
            · exact hMissing (hAll item hItem)
          · intro hNone
            refine ⟨fun item hItem => ?_, hStill⟩
            by_contra hMissing
            exact hNone ⟨hReplaces, hReads, Or.inr ⟨hWitness, item, hItem, hMissing⟩⟩
      | aborted =>
          have hRefused := hAborted.mp rfl
          rw [World.moves_split, hRefused.moves_eq]
          constructor
          · rintro ⟨hDurable, -⟩ hBetrays
            rcases hBetrays.mismatch with ⟨-, hSome⟩ | ⟨hWitness, -⟩
            · exact hSome hDurable
            · exact hRefused.2.2 hWitness
          · intro hNone
            refine ⟨?_, hRefused.2.1⟩
            by_contra hSome
            exact hNone ⟨hReplaces, hReads, Or.inl ⟨hRefused, hSome⟩⟩
      | unknown =>
          refine ⟨fun _ hBetrays => ?_, fun _ => trivial⟩
          rcases hBetrays.mismatch with ⟨hRefused, -⟩ | ⟨hWitness, -⟩
          · exact absurd (hAborted.mpr hRefused) nofun
          · exact absurd (hCommitted.mpr hWitness) nofun
  · exact fun _ h => h

/-- An owned call always ends with an outcome, and what it says is true exactly
when the write did not leave the root with part of the execution durable. -/
theorem commit_original_truthful (hStore : store.Documented) (execution : Execution Reference)
    (hOwned : execution.owned = true) (world : World) (isolationLevel : Option IsolationLevel) :
    ∃ outcome root, (commitOriginal store execution world isolationLevel).run {} = .ok outcome root ∧
      (Truthful world outcome root.session.database ↔ ¬ world.Betrays execution isolationLevel) := by
  have hEnds : Ends (commitOriginal store execution world isolationLevel) {}
      (fun outcome root => Truthful world outcome root.session.database ↔ ¬ world.Betrays execution isolationLevel)
      (fun _ => False) := by
    unfold commitOriginal
    rw [if_pos hOwned, ends_tryCatch]
    -- A kept root is never betrayed, so there both sides of the equivalence hold.
    have hBoth (hKept : ¬ world.Replaces isolationLevel) {outcome : LocalOutcome} {root : Root}
        (hTrue : Truthful world outcome root.session.database) :
        Truthful world outcome root.session.database ↔ ¬ world.Betrays execution isolationLevel :=
      ⟨fun _ hBetrays => hKept hBetrays.replaces, fun _ => hTrue⟩
    apply attempt_ends.mono
    · rintro outcome root ⟨rfl, hKept, hDatabase⟩
      apply hBoth hKept
      rw [hDatabase]
      apply (@World.sent_truthful world .now [] []).1
      simp [World.sent, Database.commit, Database.moves]
    · intro root hLeft
      cases hLeft with
      | quiet hKept hDatabase hCommitting =>
          apply (settle_quiet_ends hStore execution hDatabase).mono
          · exact fun outcome next hTrue => hBoth hKept hTrue
          · exact fun _ h => h
      | sent hKept landing hDatabase hCommitting =>
          apply (settle_sent_ends hStore execution hDatabase hCommitting).mono
          · exact fun outcome next hTrue => hBoth hKept hTrue
          · exact fun _ h => h
      | replaced hReplaces hDatabase hCommitting hLost =>
          exact settle_replaced_ends hStore execution hReplaces hDatabase hLost
  unfold Ends at hEnds
  cases hRun : (commitOriginal store execution world isolationLevel).run {} with
  | ok outcome root =>
      rw [hRun] at hEnds
      exact ⟨outcome, root, rfl, hEnds⟩
  | error _ root =>
      rw [hRun] at hEnds
      exact hEnds.elim

end

/-- A store that keeps what the database says about the execution. -/
def plainStore : TransactionStore Unit (Option Decision) where
  evidence database _ :=
    if .witness ∈ database.durable then some .commit else if database.aborted then some .rollback else none
  resolve _ found := found
  decideLocal references evidence :=
    if evidence = references.map fun _ => some .commit then .committed
    else if evidence = references.map fun _ => some .rollback then .aborted
    else .unknown

theorem forall₂_same (decision : Decision) (references : List Unit) (evidence : List (Option Decision)) :
    List.Forall₂ (fun _ found => found = some decision) references evidence ↔
      evidence = references.map fun _ => some decision := by
  induction references generalizing evidence with
  | nil => simp
  | cons ref rest ih =>
      cases evidence with
      | nil => simp
      | cons found evidence => simp [ih]

theorem plainStore_documented : plainStore.Documented where
  commit database ref := by
    simp only [plainStore]
    split
    · simp [*]
    · split <;> simp [*]
  rollback database ref := by
    simp only [plainStore]
    split
    · simp [*]
    · split <;> simp [*]
  committed references evidence _ := by
    refine Iff.trans ?_ (forall₂_same .commit references evidence).symm
    simp only [plainStore]
    split
    · exact iff_of_true rfl ‹_›
    · rename_i hNot
      split
      · exact iff_of_false nofun hNot
      · exact iff_of_false nofun hNot
  aborted references evidence hSome := by
    refine Iff.trans ?_ (forall₂_same .rollback references evidence).symm
    simp only [plainStore]
    split
    · rename_i hCommit
      cases references with
      | nil => exact absurd rfl hSome
      | cons ref rest => simp [hCommit]
    · split
      · exact iff_of_true rfl ‹_›
      · rename_i hNot
        exact iff_of_false nofun hNot

theorem single_reference : [()] ≠ [] := List.cons_ne_nil _ _

/-- One reference of an owned execution. -/
def ownedExecution : Execution Unit := ⟨true, [()], single_reference⟩

/-- Every step ends well but the acknowledgement of the commit, which landed. -/
def lostReply : World where
  opened := .done
  begun := .done
  isolated := .done
  bound := .done
  write := [.stage (.record 1), .stage (.record 2)]
  interrupted := none
  witnessed := .done
  committed := .raised .now
  rolledBack := .done
  closed := .done
  readings := fun _ => ⟨[], true⟩
  others := []
  aborted := .done false

theorem commit_original_truthful_lost_reply :
    ∃ outcome root, (commitOriginal plainStore ownedExecution lostReply (some .readCommitted)).run {} = .ok outcome root ∧
      (Truthful lostReply outcome root.session.database ↔ ¬ lostReply.Betrays ownedExecution (some .readCommitted)) :=
  commit_original_truthful plainStore_documented ownedExecution rfl lostReply (some .readCommitted)

/-- The write commits the root itself, and the execution is aborted by another
party before its evidence is read. -/
def prematureCommit : World :=
  { lostReply with
    write := [.stage (.record 1), .commit .now]
    readings := fun _ => ⟨[.abort], true⟩ }

/-- The call says aborted while the rows of its write are durable. -/
theorem premature_commit_aborted :
    plainStore.Documented ∧ ∃ root, (commitOriginal plainStore ownedExecution prematureCommit none).run {} = .ok .aborted root ∧
      ¬ Truthful prematureCommit .aborted root.session.database :=
  ⟨plainStore_documented, _, rfl, fun h => absurd h.1 (List.cons_ne_nil _ _)⟩

end TransactionRoot

end QsAi
