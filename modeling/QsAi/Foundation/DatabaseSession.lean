import Mathlib.Data.List.Basic

/-! Sessions of a database. A session stages items in numbered transactions; a
commit lands now, later or never, whatever its acknowledgement said. A
transaction that was committed, rolled back or broken never becomes current and
active again, so a session still inside the transaction it began with has
staged every item it was given and committed none of them. -/
namespace DatabaseSession

variable {α : Type}

/-- What the database does with a commit it was sent. -/
inductive Landing
  | now
  | later
  | never
deriving DecidableEq

structure Database (α : Type) where
  durable : List α := []
  /-- Items of a commit the database may still execute. -/
  inFlight : List α := []
  /-- An abort is on record, which excludes every later commit. -/
  aborted : Bool := false
deriving DecidableEq

structure Session (α : Type) where
  transaction : Option Nat := none
  active : Bool := true
  begun : Nat := 0
  staged : List α := []
  database : Database α := {}
deriving DecidableEq

/-- What a program with a session can do to it. -/
inductive Statement (α : Type)
  | stage (item : α)
  | commit (landing : Landing)
  | rollback
  | fault
deriving DecidableEq

/-- What other parties can do to the database. -/
inductive Move
  | land
  | abort
deriving DecidableEq

/-- The items a list of statements stages. -/
def items : List (Statement α) → List α
  | [] => []
  | .stage item :: rest => item :: items rest
  | _ :: rest => items rest

theorem items_append (first rest : List (Statement α)) : items (first ++ rest) = items first ++ items rest := by
  induction first with
  | nil => rfl
  | cons statement first ih => cases statement <;> simp [items, ih]

namespace Database

/-- The database after a commit of these items was sent. -/
def commit (database : Database α) (staged : List α) : Landing → Database α
  | .now => { database with durable := database.durable ++ staged }
  | .later => { database with inFlight := database.inFlight ++ staged }
  | .never => database

/-- A commit on its way lands; an abort is recorded unless the deciding item is
already durable, and ends what was on its way. -/
def move [DecidableEq α] (decisive : α) (database : Database α) : Move → Database α
  | .land => { database with durable := database.durable ++ database.inFlight, inFlight := [] }
  | .abort => if decisive ∈ database.durable then database else { database with inFlight := [], aborted := true }

def moves [DecidableEq α] (decisive : α) (database : Database α) (others : List Move) : Database α :=
  others.foldl (move decisive) database

/-- The database will never hold more than it holds, and holds nothing. -/
def Void (database : Database α) : Prop := database.durable = [] ∧ database.inFlight = []

/-- An abort is on record and counts: the deciding item is not there. -/
def Refused (decisive : α) (database : Database α) : Prop :=
  database.aborted = true ∧ database.inFlight = [] ∧ decisive ∉ database.durable

variable [DecidableEq α] {decisive : α}

theorem moves_append (database : Database α) (first rest : List Move) :
    database.moves decisive (first ++ rest) = (database.moves decisive first).moves decisive rest := by
  simp [moves]

/-- What is durable stays durable. -/
theorem durable_moves {item : α} {database : Database α} (h : item ∈ database.durable) (others : List Move) :
    item ∈ (database.moves decisive others).durable := by
  induction others generalizing database with
  | nil => exact h
  | cons other others ih =>
      apply ih
      cases other with
      | land => exact List.mem_append_left _ h
      | abort =>
          simp only [move]
          split
          · exact h
          · exact h

theorem void_moves {database : Database α} (h : database.Void) (others : List Move) :
    (database.moves decisive others).Void := by
  induction others generalizing database with
  | nil => exact h
  | cons other others ih =>
      apply ih
      obtain ⟨hDurable, hFlight⟩ := h
      cases other with
      | land => exact ⟨by simp [move, hDurable, hFlight], rfl⟩
      | abort => simp [move, Void, hDurable]

/-- Nothing moves in a database whose abort is on record. -/
theorem Refused.moves_eq {database : Database α} (h : database.Refused decisive) (others : List Move) :
    database.moves decisive others = database := by
  obtain ⟨hAborted, hFlight, hAbsent⟩ := h
  induction others with
  | nil => rfl
  | cons other others ih =>
      have hStep : database.move decisive other = database := by
        cases database
        cases other with
        | land => simp_all [move]
        | abort => simp_all [move]
      rw [moves, List.foldl_cons, hStep]
      exact ih

/-- An abort counts from the moment it is recorded. -/
theorem refused_moves {database : Database α} (hStart : database.aborted = false) (others : List Move)
    (hAborted : (database.moves decisive others).aborted = true) :
    (database.moves decisive others).Refused decisive := by
  induction others generalizing database with
  | nil =>
      rw [show database.moves decisive [] = database from rfl, hStart] at hAborted
      cases hAborted
  | cons other others ih =>
      cases other with
      | land => exact ih hStart hAborted
      | abort =>
          by_cases hThere : decisive ∈ database.durable
          · have hSame : database.move decisive .abort = database := if_pos hThere
            have hRest : database.moves decisive (.abort :: others) = database.moves decisive others := by
              rw [moves, List.foldl_cons, hSame, moves]
            rw [hRest] at hAborted ⊢
            exact ih hStart hAborted
          · have hRefused : (database.move decisive .abort).Refused decisive := by
              simp [move, hThere, Refused]
            have hRest : database.moves decisive (.abort :: others) = database.move decisive .abort := by
              rw [moves, List.foldl_cons]
              exact hRefused.moves_eq others
            rw [hRest]
            exact hRefused

end Database

namespace Session

/-- A new transaction, with nothing staged. -/
def enter (session : Session α) : Session α :=
  { session with transaction := some session.begun, active := true, begun := session.begun + 1, staged := [] }

/-- A statement of a session without a transaction begins one. -/
def ensure (session : Session α) : Session α :=
  match session.transaction with
  | none => session.enter
  | some _ => session

def stage (session : Session α) (item : α) : Session α :=
  if session.ensure.active then { session.ensure with staged := session.ensure.staged ++ [item] } else session

def commit (session : Session α) (landing : Landing) : Session α :=
  if session.active then
    { session with transaction := none, staged := [], database := session.database.commit session.staged landing }
  else session

def rollback (session : Session α) : Session α := { session with transaction := none, active := true, staged := [] }

/-- A failed statement leaves a transaction that can only be rolled back. -/
def fault (session : Session α) : Session α := { session with active := false, staged := [] }

def perform (session : Session α) : Statement α → Session α
  | .stage item => session.stage item
  | .commit landing => session.commit landing
  | .rollback => session.rollback
  | .fault => session.fault

def performAll (session : Session α) (statements : List (Statement α)) : Session α :=
  statements.foldl perform session

/-- The session is still inside this transaction, and the transaction works. -/
def Intact (root : Option Nat) (session : Session α) : Prop :=
  root ≠ none ∧ session.active = true ∧ session.transaction = root

instance (root : Option Nat) (session : Session α) : Decidable (session.Intact root) :=
  inferInstanceAs (Decidable (_ ∧ _ ∧ _))

variable {session : Session α} {root : Nat}

theorem ensure_begun (session : Session α) : session.begun ≤ session.ensure.begun := by
  unfold ensure
  split
  · exact Nat.le_succ _
  · exact Nat.le_refl _

theorem ensure_current {current : Nat} (h : session.transaction = some current) : session.ensure = session := by
  unfold ensure
  rw [h]

theorem ensure_none (h : session.transaction = none) : session.ensure = session.enter := by
  unfold ensure
  rw [h]

theorem ensure_database (session : Session α) : session.ensure.database = session.database := by
  unfold ensure
  split <;> rfl

theorem perform_begun (session : Session α) (statement : Statement α) :
    session.begun ≤ (session.perform statement).begun := by
  cases statement with
  | stage item =>
      simp only [perform, stage]
      split
      · exact ensure_begun session
      · exact Nat.le_refl _
  | commit landing => simp only [perform, commit]; split <;> exact Nat.le_refl _
  | rollback => exact Nat.le_refl _
  | fault => exact Nat.le_refl _

/-- Only staging leaves an intact transaction intact, and nothing makes a lost
one intact again. -/
theorem perform_intact (hBegun : root < session.begun) {statement : Statement α}
    (hNext : (session.perform statement).Intact (some root)) :
    session.Intact (some root) ∧
      ∃ item, statement = .stage item ∧
        session.perform statement = { session with staged := session.staged ++ [item] } := by
  obtain ⟨hSome, hActive, hSame⟩ := hNext
  cases statement with
  | stage item =>
      simp only [perform, stage] at hActive hSame ⊢
      cases hTransaction : session.transaction with
      | none =>
          simp only [ensure_none hTransaction, Session.enter, if_true, Option.some.injEq] at hSame
          omega
      | some current =>
          rw [ensure_current hTransaction] at hActive hSame ⊢
          by_cases hWorks : session.active = true
          · rw [if_pos hWorks] at hSame
            exact ⟨⟨hSome, hWorks, hSame⟩, item, rfl, by rw [if_pos hWorks, hTransaction]⟩
          · rw [if_neg hWorks] at hActive
            exact absurd hActive hWorks
  | commit landing =>
      simp only [perform, commit] at hActive hSame
      by_cases hWorks : session.active = true
      · simp [hWorks] at hSame
      · rw [if_neg hWorks] at hActive
        exact absurd hActive hWorks
  | rollback => simp [perform, rollback] at hSame
  | fault => simp [perform, Session.fault] at hActive

/-- A session that ends inside the transaction it began with staged every item
and committed nothing. -/
theorem performAll_intact {statements : List (Statement α)} (hBegun : root < session.begun)
    (hEnd : (session.performAll statements).Intact (some root)) :
    session.performAll statements = { session with staged := session.staged ++ items statements } := by
  induction statements generalizing session with
  | nil => simp [performAll, items]
  | cons statement statements ih =>
      have hMore : root < (session.perform statement).begun := Nat.lt_of_lt_of_le hBegun (perform_begun _ _)
      have hLater := ih hMore hEnd
      have hMiddle : (session.perform statement).Intact (some root) := by
        rw [show session.performAll (statement :: statements) =
          (session.perform statement).performAll statements from rfl, hLater] at hEnd
        exact hEnd
      obtain ⟨-, item, rfl, hStage⟩ := perform_intact hBegun hMiddle
      rw [show session.performAll (.stage item :: statements) =
        (session.perform (.stage item)).performAll statements from rfl, hLater, hStage]
      simp [items]

/-- No statement records an abort. -/
theorem perform_aborted (session : Session α) (statement : Statement α) :
    (session.perform statement).database.aborted = session.database.aborted := by
  cases statement with
  | stage item =>
      simp only [perform, stage]
      split
      · exact congrArg Database.aborted (ensure_database session)
      · rfl
  | commit landing =>
      simp only [perform, commit]
      split
      · cases landing <;> rfl
      · rfl
  | rollback => rfl
  | fault => rfl

theorem performAll_aborted (session : Session α) (statements : List (Statement α)) :
    (session.performAll statements).database.aborted = session.database.aborted := by
  induction statements generalizing session with
  | nil => rfl
  | cons statement statements ih => exact (ih _).trans (perform_aborted session statement)

end Session

end DatabaseSession
