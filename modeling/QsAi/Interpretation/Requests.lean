import QsAi.Interpretation.Keys

/-! Requests of callers and operators, whose transactions interleave. A
transaction holds the lock of its key from its reservation to its end. -/
namespace QsAi

namespace Interpretation

open Keyed Interrupted

inductive Request
  | start (command : StartCommand)
  | change (actor : Actor) (sessionId : String) (command : ChangeCommand) (key : String)
  | retry (command : ParticipantRetry)
deriving DecidableEq

/-- What a transaction is given: the resources of its unit of work and new identities. -/
structure Supply where
  resources : Resources
  identity : IdentityRole → String

/-- What a caller may read, as the report source says. -/
abbrev Authorization := Actor → String → List String → Except Refusal Unit

namespace Request

/-- Two requests have the same key: a start is known by its identity alone, a
change belongs to its actor, action and session, a retry to its organization. -/
def SameKey : Request → Request → Prop
  | .start first, .start second => first.requestId = second.requestId
  | .change actor sessionId command key, .change actor' sessionId' command' key' =>
      actor = actor' ∧ sessionId = sessionId' ∧ command.action = command'.action ∧ key = key'
  | .retry first, .retry second =>
      first.scope.organizationId = second.scope.organizationId ∧ first.commandId = second.commandId
  | _, _ => False

def scope : Request → Content
  | .start _ => startScope
  | .change actor sessionId command _ => changeScope actor command.action sessionId
  | .retry command => retryScope command.scope.organizationId

def key : Request → String
  | .start command => command.requestId
  | .change _ _ _ key => key
  | .retry command => command.commandId

def content : Request → Content
  | .start command => .ofStart command
  | .change _ _ command _ => .ofChange command
  | .retry command => .ofRetry command

variable (library : Library)

/-- The row that a request's key has. -/
def identity (request : Request) : String × String := (library.fingerprint request.scope, request.key)

/-- The checks of what was sent, before any transaction. -/
def check : Request → Except Refusal Unit
  | .start command => checkStart library command
  | .change _ _ _ key => if validKey key = true then .ok ⟨⟩ else .error (.rule "invalid_idempotency_key")
  | .retry _ => .ok ⟨⟩

/-- The transaction before the one of the command: the caller's access. -/
def authorized (supply : Supply) (authorization : Authorization) : Request → Program Database Unit
  | .start _ => pure ()
  | .change actor sessionId _ _ => owned (mysqlUnitOfWork supply.resources) authorization actor sessionId
  | .retry command => retryTarget authorization command.scope command.sessionId

/-- The transaction of the command. -/
def program (supply : Supply) : Request → Program Database Receipt
  | .start command => startExternal library (mysqlUnitOfWork supply.resources) supply.identity command
  | .change actor sessionId command key => do
      let scope ← lift (keyScope library actor command.action sessionId key)
      Interpretation.change library (mysqlUnitOfWork supply.resources) (supply.identity .run) actor sessionId command scope key
  | .retry command => Interpretation.retry library supply.resources (supply.identity .run) command

/-- The row that a committed request leaves. -/
def row (request : Request) (receipt : Receipt) : IdempotencyRow :=
  ⟨library.fingerprint request.scope, request.key, library.fingerprint request.content, some receipt⟩

end Request

/-- A transaction that ended, with the rows before and after it. -/
structure Answer where
  request : Request
  outcome : Outcome
  before : Database
  after : Database

structure World where
  db : Database
  /-- Requests that passed their checks and wait for their key. -/
  waiting : List Request
  /-- Transactions that hold the lock of their key. -/
  pending : List Request
  history : List Answer

inductive Event
  | arrive (request : Request) (supply : Supply) (authorization : Authorization)
  | reserve (request : Request) (supply : Supply)
  | finish (request : Request) (supply : Supply)
  | abort (request : Request)
  /-- Other transactions change everything but the rows of the keys. -/
  | other (db : Database)

namespace World

variable (library : Library)

def initial (db : Database) : World := ⟨db, [], [], []⟩

/-- The transaction of a request ends. -/
def answer (world : World) (request : Request) (supply : Supply) : World :=
  let (outcome, after) := transact (request.program library supply) world.db
  { db := after, waiting := world.waiting.erase request, pending := world.pending.erase request
    history := world.history ++ [⟨request, outcome, world.db, after⟩] }

/-- A used key ends the transaction at once, a new one is locked. -/
def reserve (world : World) (request : Request) (supply : Supply) : World :=
  if (lookup IdempotencyRow.identity world.db.idempotency (request.identity library)).isSome = true then
    world.answer library request supply
  else { world with waiting := world.waiting.erase request, pending := request :: world.pending }

def step (world : World) : Event → World
  | .arrive request supply authorization =>
      match request.check library, (transact (request.authorized supply authorization) world.db).1 with
      | .ok _, .ok _ => { world with waiting := request :: world.waiting }
      | _, _ => world
  | .reserve request supply =>
      if request ∈ world.waiting ∧ ∀ holder ∈ world.pending, holder.identity library ≠ request.identity library then
        world.reserve library request supply
      else world
  | .finish request supply => if request ∈ world.pending then world.answer library request supply else world
  | .abort request => { world with waiting := world.waiting.erase request, pending := world.pending.erase request }
  | .other db => { world with db := { db with idempotency := world.db.idempotency } }

def run (world : World) (events : List Event) : World := events.foldl (step library) world

end World

/-! The key of a request. -/

section

variable {library : Library} (hFingerprint : Function.Injective library.fingerprint)

include hFingerprint

theorem identity_iff (first second : Request) :
    first.identity library = second.identity library ↔ first.SameKey second := by
  have hScope : first.identity library = second.identity library ↔ first.scope = second.scope ∧ first.key = second.key := by
    rw [Request.identity, Request.identity, Prod.mk.injEq, hFingerprint.eq_iff]
  rw [hScope]
  cases first with
  | start first =>
      cases second with
      | start second => simp [Request.scope, Request.key, Request.SameKey]
      | change actor sessionId command key => simp [Request.scope, Request.SameKey, startScope, changeScope]
      | retry second => simp [Request.scope, Request.SameKey, startScope, retryScope]
  | change actor sessionId command key =>
      cases second with
      | start second => simp [Request.scope, Request.SameKey, startScope, changeScope]
      | change actor' sessionId' command' key' =>
          simp only [Request.scope, Request.key, Request.SameKey, changeScope, Content.array.injEq, List.cons.injEq,
            Content.string.injEq, and_true, Content.ofActor_injective.eq_iff]
          tauto
      | retry second => simp [Request.scope, Request.SameKey, changeScope, retryScope]
  | retry first =>
      cases second with
      | start second => simp [Request.scope, Request.SameKey, startScope, retryScope]
      | change actor sessionId command key => simp [Request.scope, Request.SameKey, changeScope, retryScope]
      | retry second => simp [Request.scope, Request.key, Request.SameKey, retryScope]

/-- Under one key, the content tells the request. -/
theorem content_iff {first second : Request} (h : first.SameKey second) :
    library.fingerprint first.content = library.fingerprint second.content ↔ first = second := by
  rw [hFingerprint.eq_iff]
  constructor
  · intro hContent
    cases first with
    | start first =>
        cases second with
        | start second =>
            change first.requestId = second.requestId at h
            have hSame := Content.ofStart_injective hContent
            rw [← h] at hSame
            exact congrArg Request.start hSame
        | change actor sessionId command key => exact h.elim
        | retry second => exact h.elim
    | change actor sessionId command key =>
        cases second with
        | start second => exact h.elim
        | change actor' sessionId' command' key' =>
            obtain ⟨rfl, rfl, -, rfl⟩ := h
            rw [Content.ofChange_injective hContent]
        | retry second => exact h.elim
    | retry first =>
        cases second with
        | start second => exact h.elim
        | change actor sessionId command key => exact h.elim
        | retry second => rw [Content.ofRetry_injective hContent]
  · rintro rfl
    rfl

end

/-- Whether a caller has access is only read. -/
theorem authorized_reads (supply : Supply) (authorization : Authorization) (request : Request) (inv : Database → Prop) :
    Holds inv (fun _ => True) (request.authorized supply authorization) fun _ _ => True := by
  have hGet : Holds inv (fun _ => True) (get : Program Database Database) fun _ _ => True :=
    holds_get.post fun _ _ _ => trivial
  cases request with
  | start command => exact holds_pure fun _ _ => trivial
  | change actor sessionId command key =>
      have hSession : Holds inv (fun _ => True) (Database.session sessionId) fun _ _ => True :=
        hGet.bind fun db => (demand_holds _ _).bind fun row => holds_pure fun _ _ => trivial
      refine hSession.bind fun session => (refuseUnless_holds _ _).bind fun _ => ?_
      exact Holds.ite (fun _ => holds_pure fun _ _ => trivial) fun _ => lift_holds _
  | retry command =>
      refine hGet.bind fun db => (demand_holds _ _).bind fun row => (refuseUnless_holds _ _).bind fun _ => ?_
      exact (refuseUnless_holds _ _).bind fun _ => lift_holds _

/-! The transaction of a request. -/

theorem lift_bind {α : Type} {value : Except Refusal PUnit} (h : value = .ok ⟨⟩) (next : PUnit → Program Database α) :
    (lift value >>= next : Program Database α) = next ⟨⟩ := by
  rw [h]
  rfl

/-- A request that passed its checks reserves its key and then runs. -/
theorem program_replaying {library : Library} {request : Request} (supply : Supply) (hCheck : request.check library = .ok ⟨⟩) :
    ∃ apply, (∀ rows, Answers rows (request.identity library).1 (request.identity library).2 apply) ∧
      request.program library supply =
        replaying (request.identity library).1 (request.identity library).2 (library.fingerprint request.content) apply := by
  cases request with
  | start command =>
      exact ⟨_, fun _ => applyStart_answers library supply.resources supply.identity command _, lift_bind hCheck _⟩
  | change actor sessionId command key =>
      refine ⟨_, fun _ => applyChange_answers supply.resources (supply.identity .run) actor sessionId command _ key, ?_⟩
      have hKey : validKey key = true := by
        by_contra hInvalid
        simp [Request.check, hInvalid] at hCheck
      have hScope : keyScope library actor command.action sessionId key =
          .ok (library.fingerprint (changeScope actor command.action sessionId)) := if_pos hKey
      change (lift (keyScope library actor command.action sessionId key) >>= _) = _
      rw [hScope]
      rfl
  | retry command =>
      exact ⟨_, fun _ => applyRetry_answers library supply.resources (supply.identity .run) command _, rfl⟩

/-- A used key. -/
theorem program_used {library : Library} (hFingerprint : Function.Injective library.fingerprint) {request first : Request}
    (supply : Supply) (hCheck : request.check library = .ok ⟨⟩) {db : Database} {receipt : Receipt}
    (hRow : lookup IdempotencyRow.identity db.idempotency (request.identity library) = some (first.row library receipt)) :
    transact (request.program library supply) db =
      (if first = request then .ok receipt else .error (.rule "idempotency_conflict"), db) := by
  obtain ⟨apply, -, hProgram⟩ := program_replaying supply hCheck
  have hSame : first.identity library = request.identity library := (lookup_some hRow).2
  have hUsed := @replaying_used db (request.identity library).1 (request.identity library).2
    (library.fingerprint request.content) apply _ receipt hRow rfl
  have hContent := content_iff hFingerprint ((identity_iff hFingerprint _ _).mp hSame)
  rw [hProgram, hUsed]
  by_cases hEqual : first = request
  · rw [if_pos hEqual]
    exact congrArg (·, db) (if_pos (hContent.mpr hEqual))
  · rw [if_neg hEqual]
    exact congrArg (·, db) (if_neg fun h => hEqual (hContent.mp h))

/-- An unused key. -/
theorem program_unused {library : Library} {request : Request} {supply : Supply} (hCheck : request.check library = .ok ⟨⟩)
    {db next : Database} {receipt : Receipt}
    (hRow : lookup IdempotencyRow.identity db.idempotency (request.identity library) = none)
    (hRun : transact (request.program library supply) db = (.ok receipt, next)) :
    next.idempotency = db.idempotency ++ [request.row library receipt] := by
  obtain ⟨apply, hApply, hProgram⟩ := program_replaying supply hCheck
  rw [hProgram] at hRun
  exact replaying_unused hRow hApply hRun

/-! Every run. -/

/-- What the transaction of a request answers after the earlier ones. -/
structure Answer.Exact (library : Library) (earlier : List Answer) (answer : Answer) : Prop where
  /-- A request that failed leaves no trace. -/
  failed : ∀ refusal, answer.outcome = .error refusal → answer.after = answer.before
  /-- A key that was committed answers the same request with its receipt, and refuses every other one. -/
  replayed : ∀ first ∈ earlier, ∀ receipt, first.outcome = .ok receipt → first.request.SameKey answer.request →
    answer.after = answer.before ∧
      answer.outcome = if first.request = answer.request then .ok receipt else .error (.rule "idempotency_conflict")
  /-- A key that no request committed is free. -/
  free : (∀ first ∈ earlier, first.request.SameKey answer.request → ∀ receipt, first.outcome ≠ .ok receipt) →
    lookup IdempotencyRow.identity answer.before.idempotency (answer.request.identity library) = none

/-- What holds between any two steps. -/
structure World.Sound (library : Library) (world : World) : Prop where
  unique : UniqueOn IdempotencyRow.identity world.db.idempotency
  answered : ∀ row ∈ world.db.idempotency, ∃ answer ∈ world.history, ∃ receipt,
    answer.outcome = .ok receipt ∧ row = answer.request.row library receipt
  recorded : ∀ answer ∈ world.history, ∀ receipt, answer.outcome = .ok receipt →
    answer.request.row library receipt ∈ world.db.idempotency
  waiting : ∀ request ∈ world.waiting, request.check library = .ok ⟨⟩
  pending : ∀ request ∈ world.pending, request.check library = .ok ⟨⟩
  exact : ∀ earlier answer later, world.history = earlier ++ answer :: later → answer.Exact library earlier

theorem row_identity (library : Library) (request : Request) (receipt : Receipt) :
    (request.row library receipt).identity = request.identity library := rfl

/-- The last transaction of a history, or an earlier one. -/
theorem exact_snoc {library : Library} {history : List Answer} {last : Answer}
    (h : ∀ earlier answer later, history = earlier ++ answer :: later → answer.Exact library earlier)
    (hLast : last.Exact library history) :
    ∀ earlier answer later, history ++ [last] = earlier ++ answer :: later → answer.Exact library earlier := by
  intro earlier answer later hHistory
  rcases List.eq_nil_or_concat later with rfl | ⟨front, final, rfl⟩
  · obtain ⟨rfl, hAnswer⟩ := List.append_inj' hHistory rfl
    obtain rfl := List.cons.inj hAnswer |>.1
    exact hLast
  · rw [List.concat_eq_append, ← List.cons_append, ← List.append_assoc] at hHistory
    exact h earlier answer front (List.append_inj' hHistory rfl).1

namespace World

variable {library : Library}

/-- A further answer, with the row that it leaves. -/
theorem Sound.snoc {world : World} (h : world.Sound library) (last : Answer) (hExact : last.Exact library world.history)
    {waiting pending : List Request} (hWaiting : ∀ request ∈ waiting, request ∈ world.waiting)
    (hPending : ∀ request ∈ pending, request ∈ world.pending)
    (hUnique : UniqueOn IdempotencyRow.identity last.after.idempotency)
    (hRows : ∀ row, row ∈ last.after.idempotency ↔ row ∈ world.db.idempotency ∨
      ∃ receipt, last.outcome = .ok receipt ∧ row = last.request.row library receipt) :
    (World.mk last.after waiting pending (world.history ++ [last])).Sound library where
  unique := hUnique
  answered := by
    intro row hRow
    rcases (hRows row).mp hRow with hOld | ⟨receipt, hOutcome, rfl⟩
    · obtain ⟨answer, hAnswer, hRest⟩ := h.answered row hOld
      exact ⟨answer, List.mem_append_left _ hAnswer, hRest⟩
    · exact ⟨last, by simp, receipt, hOutcome, rfl⟩
  recorded := by
    intro answer hAnswer receipt hOutcome
    apply (hRows _).mpr
    rcases List.mem_append.mp hAnswer with hOld | hLast
    · exact .inl (h.recorded answer hOld receipt hOutcome)
    · obtain rfl := List.mem_singleton.mp hLast
      exact .inr ⟨receipt, hOutcome, rfl⟩
  waiting := fun request hRequest => h.waiting request (hWaiting request hRequest)
  pending := fun request hRequest => h.pending request (hPending request hRequest)
  exact := exact_snoc h.exact hExact

/-- The committed request of a key is the only one. -/
theorem Sound.committed_unique (hFingerprint : Function.Injective library.fingerprint) {world : World}
    (h : world.Sound library) {first second : Answer} (hFirst : first ∈ world.history) (hSecond : second ∈ world.history)
    {receipt receipt' : Receipt} (hOutcome : first.outcome = .ok receipt) (hOutcome' : second.outcome = .ok receipt')
    (hSame : first.request.SameKey second.request) : first.request = second.request ∧ receipt = receipt' := by
  have hIdentity := (identity_iff hFingerprint _ _).mpr hSame
  have hRow := h.unique.eq_of_key (h.recorded first hFirst receipt hOutcome) (h.recorded second hSecond receipt' hOutcome')
    hIdentity
  have hHash := congrArg IdempotencyRow.requestHash hRow
  have hResponse := congrArg IdempotencyRow.response hRow
  exact ⟨(content_iff hFingerprint hSame).mp hHash, Option.some.inj hResponse⟩

/-- A request whose key is used. -/
theorem answer_used (hFingerprint : Function.Injective library.fingerprint) {world : World} (h : world.Sound library)
    {request : Request} (supply : Supply) (hCheck : request.check library = .ok ⟨⟩) {row : IdempotencyRow}
    (hRow : lookup IdempotencyRow.identity world.db.idempotency (request.identity library) = some row) :
    (world.answer library request supply).Sound library := by
  obtain ⟨hMem, hKey⟩ := lookup_some hRow
  obtain ⟨first, hFirst, receipt, hReceipt, rfl⟩ := h.answered row hMem
  have hFirstKey : first.request.SameKey request := (identity_iff hFingerprint _ _).mp hKey
  have hRun := program_used hFingerprint supply hCheck hRow
  have hAnswer : world.answer library request supply =
      ⟨world.db, world.waiting.erase request, world.pending.erase request, world.history ++ [⟨request,
        if first.request = request then .ok receipt else .error (.rule "idempotency_conflict"), world.db, world.db⟩]⟩ := by
    simp only [World.answer, hRun]
  rw [hAnswer]
  refine h.snoc ⟨request, _, _, _⟩ ?_ (fun _ => List.mem_of_mem_erase) (fun _ => List.mem_of_mem_erase) ?_ ?_
  · refine ⟨fun _ _ => rfl, ?_, ?_⟩
    · intro other hOther receipt' hReceipt' hSame
      have hKeys : other.request.SameKey first.request := by
        rw [← identity_iff hFingerprint] at hSame hFirstKey ⊢
        exact hSame.trans hFirstKey.symm
      obtain ⟨hEqual, rfl⟩ := h.committed_unique hFingerprint hOther hFirst hReceipt' hReceipt hKeys
      rw [hEqual]
      exact ⟨rfl, rfl⟩
    · intro hFree
      exact absurd hReceipt (hFree first hFirst hFirstKey receipt)
  · exact h.unique
  · intro row
    constructor
    · exact .inl
    · rintro (hOld | ⟨receipt', hOutcome, rfl⟩)
      · exact hOld
      · simp only at hOutcome
        split_ifs at hOutcome with hEqual
        · obtain rfl := Except.ok.inj hOutcome
          obtain rfl := hEqual
          exact hMem

/-- A request whose key is free. -/
theorem answer_unused (hFingerprint : Function.Injective library.fingerprint) {world : World} (h : world.Sound library)
    {request : Request} (supply : Supply) (hCheck : request.check library = .ok ⟨⟩)
    (hRow : lookup IdempotencyRow.identity world.db.idempotency (request.identity library) = none) :
    (world.answer library request supply).Sound library := by
  have hNone : ∀ first ∈ world.history, ∀ receipt, first.outcome = .ok receipt → ¬ first.request.SameKey request := by
    intro first hFirst receipt hReceipt hSame
    exact lookup_eq_none.mp hRow _ (h.recorded first hFirst receipt hReceipt) ((identity_iff hFingerprint _ _).mpr hSame)
  cases hRun : transact (request.program library supply) world.db with
  | mk outcome after =>
      have hAnswer : world.answer library request supply = ⟨after, world.waiting.erase request, world.pending.erase request,
          world.history ++ [⟨request, outcome, world.db, after⟩]⟩ := by
        simp only [World.answer, hRun]
      have hExact : (Answer.mk request outcome world.db after).Exact library world.history := by
        refine ⟨?_, ?_, fun _ => hRow⟩
        · rintro refusal rfl
          exact transact_error hRun
        · intro first hFirst receipt hReceipt hSame
          exact absurd hSame (hNone first hFirst receipt hReceipt)
      rw [hAnswer]
      cases outcome with
      | error refusal =>
          obtain rfl : after = world.db := transact_error hRun
          refine h.snoc ⟨request, _, _, _⟩ hExact (fun _ => List.mem_of_mem_erase) (fun _ => List.mem_of_mem_erase) ?_ ?_
          · exact h.unique
          · simp
      | ok receipt =>
          have hRows := program_unused hCheck hRow hRun
          refine h.snoc ⟨request, _, _, _⟩ hExact (fun _ => List.mem_of_mem_erase) (fun _ => List.mem_of_mem_erase) ?_ ?_
          · change UniqueOn IdempotencyRow.identity after.idempotency
            rw [hRows]
            apply h.unique.snoc
            intro hMem
            obtain ⟨row, hOld, hKey⟩ := List.mem_map.mp hMem
            exact lookup_eq_none.mp hRow row hOld hKey
          · intro row
            change row ∈ after.idempotency ↔ _
            simp [hRows]

theorem answer_sound (hFingerprint : Function.Injective library.fingerprint) {world : World} (h : world.Sound library)
    {request : Request} (supply : Supply) (hCheck : request.check library = .ok ⟨⟩) :
    (world.answer library request supply).Sound library := by
  cases hRow : lookup IdempotencyRow.identity world.db.idempotency (request.identity library) with
  | none => exact answer_unused hFingerprint h supply hCheck hRow
  | some row => exact answer_used hFingerprint h supply hCheck hRow

theorem step_sound (hFingerprint : Function.Injective library.fingerprint) {world : World} (h : world.Sound library)
    (event : Event) : (world.step library event).Sound library := by
  cases event with
  | arrive request supply authorization =>
      simp only [World.step]
      split
      · next hCheck hAuthorized =>
          refine { h with waiting := ?_ }
          intro other hOther
          rcases List.mem_cons.mp hOther with rfl | hOld
          · exact hCheck
          · exact h.waiting other hOld
      · exact h
  | reserve request supply =>
      simp only [World.step, World.reserve]
      split_ifs with hFree hUsed
      · exact answer_sound hFingerprint h supply (h.waiting request hFree.1)
      · refine { h with waiting := ?_, pending := ?_ }
        · exact fun other hOther => h.waiting other (List.mem_of_mem_erase hOther)
        · intro other hOther
          rcases List.mem_cons.mp hOther with rfl | hOld
          · exact h.waiting other hFree.1
          · exact h.pending other hOld
      · exact h
  | finish request supply =>
      simp only [World.step]
      split_ifs with hPending
      · exact answer_sound hFingerprint h supply (h.pending request hPending)
      · exact h
  | abort request =>
      refine { h with waiting := ?_, pending := ?_ }
      · exact fun other hOther => h.waiting other (List.mem_of_mem_erase hOther)
      · exact fun other hOther => h.pending other (List.mem_of_mem_erase hOther)
  | other db => exact { h with }

theorem run_sound (hFingerprint : Function.Injective library.fingerprint) {world : World} (h : world.Sound library)
    (events : List Event) : (world.run library events).Sound library := by
  induction events generalizing world with
  | nil => exact h
  | cons event rest ih => exact ih (step_sound hFingerprint h event)

theorem initial_sound {db : Database} (hEmpty : db.idempotency = []) : (initial db).Sound library where
  unique := by simp [initial, hEmpty]
  answered := by simp [initial, hEmpty]
  recorded := by simp [initial]
  waiting := by simp [initial]
  pending := by simp [initial]
  exact := by simp [initial]

end World

/-! A start that is repeated. -/

def plainLibrary : Library := ⟨Content.canonical, some, fun _ => none, fun _ => true⟩

def plainDatabase : Database where
  publications session evidence :=
    .ok ⟨session.id, evidence.id, evidence.fingerprint, "publication", "digest", 1, "query"⟩
  validGeneration _ _ _ := true

theorem newYear_date : 1 ≤ 2025 ∧ 2025 ≤ 9999 ∧ 1 ≤ 1 ∧ 1 ≤ 12 ∧ 1 ≤ 1 ∧ 1 ≤ daysInMonth 2025 1 := by decide

theorem newYear_clock : 0 < 24 ∧ 0 < 60 ∧ 0 < 60 ∧ 0 < 1000000 := by decide

theorem newYear_zone : -dayMicroseconds < 0 ∧ 0 < dayMicroseconds := by decide

def plainSupply : Supply where
  resources := {
    jobId := "job"
    stateEventId := "event"
    time := ⟨2025, 1, 1, 0, 0, 0, 0, 0, newYear_date, newYear_clock, newYear_zone⟩ }
  identity
    | .session => "session"
    | .run => "run"
    | .evidence => "evidence"

def plainStart : StartCommand where
  actor := ⟨"7", "parent"⟩
  testeeId := "42"
  assessmentIds := ["1"]
  goal := "explain"
  requestId := "request"
  evidence := [⟨"1", "42", "report", "v1", [⟨"standard_report", "text"⟩]⟩]

/-- A start that commits. -/
def plainEvents : List Event :=
  [.arrive (.start plainStart) plainSupply fun _ _ _ => .ok ⟨⟩, .reserve (.start plainStart) plainSupply,
    .finish (.start plainStart) plainSupply]

/-! Every interleaving. -/

/-- Every request of every interleaving is answered exactly, and two requests
have one row of a key exactly if they have the same key. -/
theorem idempotency_exact (library : Library) (hFingerprint : Function.Injective library.fingerprint) (db : Database)
    (hEmpty : db.idempotency = []) (events : List Event) :
    (∀ earlier answer later, ((World.initial db).run library events).history = earlier ++ answer :: later →
      answer.Exact library earlier) ∧
    ∀ first second : Request, first.identity library = second.identity library ↔ first.SameKey second :=
  ⟨(World.run_sound hFingerprint (World.initial_sound hEmpty) events).exact, identity_iff hFingerprint⟩

theorem idempotency_exact_repeated :
    ((World.initial plainDatabase).run plainLibrary (plainEvents ++ plainEvents)).history.map (·.outcome) =
      [.ok ⟨"session", some "run", .queued, 2⟩, .ok ⟨"session", some "run", .queued, 2⟩] ∧
    (∀ earlier answer later,
      ((World.initial plainDatabase).run plainLibrary (plainEvents ++ plainEvents)).history = earlier ++ answer :: later →
        answer.Exact plainLibrary earlier) ∧
    ∀ first second : Request, first.identity plainLibrary = second.identity plainLibrary ↔ first.SameKey second :=
  ⟨by decide +kernel,
    idempotency_exact plainLibrary Content.canonical_injective plainDatabase rfl (plainEvents ++ plainEvents)⟩

/-- A start with the identity of another one and without a goal fails its own
checks before its key is read. -/
theorem malformed_start_is_no_conflict :
    ¬ ∀ (library : Library) (db : Database) (events : List Event) (supply : Supply) (first : Answer) (request : Request),
      Function.Injective library.fingerprint → db.idempotency = [] →
      first ∈ ((World.initial db).run library events).history → (∃ receipt, first.outcome = .ok receipt) →
      first.request.SameKey request → first.request ≠ request →
      (transact (request.program library supply) ((World.initial db).run library events).db).1 =
        .error (.rule "idempotency_conflict") := by
  intro hConflict
  have hRefused : (transact ((Request.start { plainStart with goal := "" }).program plainLibrary plainSupply)
      ((World.initial plainDatabase).run plainLibrary plainEvents).db).1 = .error (.rule "invalid_session_input") := by
    decide +kernel
  have hHistory : ((World.initial plainDatabase).run plainLibrary plainEvents).history.map
      (fun answer => (answer.request, answer.outcome)) = [(.start plainStart, .ok ⟨"session", some "run", .queued, 2⟩)] := by
    decide +kernel
  obtain ⟨first, hFirst⟩ := List.length_eq_one_iff.mp (by simpa using congrArg List.length hHistory)
  rw [hFirst, List.map_singleton, List.cons.injEq, Prod.mk.injEq] at hHistory
  obtain ⟨⟨hRequest, hOutcome⟩, -⟩ := hHistory
  have hSame : first.request.SameKey (.start { plainStart with goal := "" }) := by
    rw [hRequest]
    rfl
  have hOther : first.request ≠ .start { plainStart with goal := "" } := by
    rw [hRequest]
    decide
  have hResult := hConflict plainLibrary plainDatabase plainEvents plainSupply first _ Content.canonical_injective rfl
    (by simp [hFirst]) ⟨_, hOutcome⟩ hSame hOther
  rw [hRefused] at hResult
  exact absurd hResult (by decide)

end Interpretation

end QsAi
