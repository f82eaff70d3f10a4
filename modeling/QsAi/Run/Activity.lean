import QsAi.Run.Cancellation

/-! When a Run occupies an evaluation slot of its organization, and which
transactions can make it take one. -/
namespace QsAi

open Guarded Keyed Numbered

/-- The transactions that pass the admission of the organization: a start, and
a decision about an unknown result. -/
def Operation.admitted : Operation → Bool
  | .transitionRequested _ target _ _ _ => target = .collecting
  | .acceptResolution .. => true
  | _ => false

/-- The one transaction that resumes a blocked Run without an admission. -/
def Operation.recovers : Operation → Bool
  | .authorizeContractRecovery .. => true
  | _ => false

def Operation.cancels : Operation → Bool
  | .cancel .. => true
  | _ => false

/-- Only the decisions of an operator or of the preflight move a Run on. -/
def Event.decides : Event → Bool
  | .decided _ => true
  | _ => false

def Event.cancels : Event → Bool
  | .canceled _ => true
  | _ => false

namespace Store

variable {store next : Store} {event : Event}

/-- Pending cancellation retains its slot until unknown evidence is resolved. -/
def Active (store : Store) : Prop :=
  store.progress.status = .collecting ∨
    (store.progress.status = .blocked ∧ store.progress.cancelRequested ≠ none)

instance (store : Store) : Decidable store.Active := inferInstanceAs (Decidable (_ ∨ _))

/-- The Run collects, or it collected and is blocked now. -/
def Begun (store : Store) : Prop := store.progress.status = .collecting ∨ store.progress.status = .blocked

theorem Active.begun (h : store.Active) : store.Begun := h.imp_right And.left

/-- The operation gives a blocked Run a slot without an admission: it recovers
the Run, or asks to cancel it while a result is unknown. -/
def Occupies (store : Store) (op : Operation) : Prop :=
  op.recovers = true ∨
    (op.cancels = true ∧ store.progress.status = .blocked ∧ store.progress.cancelRequested = none)

/-- A step after which a Run is no more at work than before it. -/
structure Rests (store next : Store) : Prop where
  begun : next.Begun → store.Begun
  collecting : next.progress.status = .collecting → store.progress.status = .collecting

theorem Rests.of_status (h : next.progress.status = store.progress.status) : store.Rests next where
  begun := by
    unfold Begun
    rw [h]
    exact id
  collecting := fun hNext => h ▸ hNext

theorem Rests.of_collecting (h : store.progress.status = .collecting) : store.Rests next :=
  ⟨fun _ => .inl h, fun _ => h⟩

theorem Rests.of_ended (h : ¬ next.Begun) : store.Rests next :=
  ⟨fun hBegun => absurd hBegun h, fun hCollecting => absurd (.inl hCollecting) h⟩

theorem Rests.trans {middle : Store} (h : store.Rests middle) (hNext : middle.Rests next) : store.Rests next :=
  ⟨fun hBegun => h.begun (hNext.begun hBegun), fun hCollecting => h.collecting (hNext.collecting hCollecting)⟩

theorem Keeps.rests (hKeeps : store.Keeps next) : store.Rests next := .of_status (by rw [hKeeps.progress])

/-- Without a decision no change starts or resumes a Run. -/
theorem Change.rests (hChange : store.Change event next) (h : store.Coherent) (hEvent : event.decides = false) :
    store.Rests next := by
  cases hChange with
  | start => cases hEvent
  | preflight => cases hEvent
  | resolve => cases hEvent
  | recover => cases hEvent
  | prepare _ hKeeps => exact hKeeps.rests
  | dispatch _ _ _ _ _ _ _ hKeeps => exact hKeeps.rests
  | renew _ hKeeps => exact hKeeps.rests
  | release _ _ hKeeps => exact hKeeps.rests
  | drain _ hDrains => exact .of_collecting (hDrains.before h).1
  | settle _ hSettles => exact .of_collecting hSettles.collecting
  | requestCancel hRequests => exact .of_status (by rw [hRequests.next])
  | endCanceled _ hEnds =>
      have hStatus : next.progress.status = .canceled := by rw [hEnds.next]
      exact .of_ended (by simp [Begun, hStatus])
  | review hReviews =>
      refine .of_ended ?_
      rcases hReviews.reviewed.after with hStatus | hStatus | hStatus <;> simp [Begun, hStatus]
  | unchanged => exact .of_status rfl

theorem Changes.rests {events : List Event} (hChanges : Changes store events next) (h : store.Coherent)
    (hEvents : ∀ event ∈ events, event.decides = false) : store.Rests next := by
  induction hChanges with
  | nil => exact .of_status rfl
  | cons hChange _ ih =>
      obtain ⟨hEvent, hRest⟩ := List.forall_mem_cons.mp hEvents
      exact (hChange.rests h hEvent).trans (ih (hChange.coherent h) hRest)

/-- What an operation without an admission does to the work of a Run: only a
recovery resumes it. -/
theorem perform_rests (h : store.Coherent) {op : Operation} (hOp : store.perform op = .ok next)
    (hAdmitted : op.admitted = false) :
    store.Rests next ∨ (op.recovers = true ∧ store.progress.status = .blocked) := by
  have hChanges := perform_changes h hOp
  cases op with
  | transitionRequested expectedVersion target actor reason time =>
      obtain ⟨_, _, hTarget, _, rfl⟩ := transitionRequested_ok hOp
      rcases hTarget with rfl | rfl
      · cases hAdmitted
      · exact .inl (.of_ended (by simp [Begun]))
  | completePreflight expectedVersion evidence =>
      obtain ⟨_, hStatus, _⟩ := completePreflight_ok hOp
      exact .inl (.of_collecting hStatus)
  | acceptResolution => cases hAdmitted
  | authorizeContractRecovery =>
      obtain ⟨_, _, hRecovers⟩ := authorizeContractRecovery_ok h.toValid hOp
      exact .inr ⟨rfl, hRecovers.blocked⟩
  | acceptReviews expectedVersion actor values =>
      refine .inl (hChanges.rests h fun event hEvent => ?_)
      obtain ⟨time, _, rfl⟩ := List.mem_map.mp hEvent
      rfl
  | expireCandidate claim time =>
      refine .inl (hChanges.rests h fun event hEvent => ?_)
      rw [List.mem_singleton.mp hEvent]
      split <;> rfl
  | _ =>
      refine .inl (hChanges.rests h ?_)
      simp [Operation.events, Event.decides, Completion.event]

theorem Changes.request {events : List Event} (hChanges : Changes store events next)
    (hEvents : ∀ event ∈ events, event.cancels = false) :
    next.progress.cancelRequested = store.progress.cancelRequested := by
  induction hChanges with
  | nil => rfl
  | cons hChange _ ih =>
      obtain ⟨hEvent, hRest⟩ := List.forall_mem_cons.mp hEvents
      rcases hChange.request with hSame | ⟨_, rfl, _⟩
      · exact (ih hRest).trans hSame
      · cases hEvent

/-- Only a cancellation asks to cancel. -/
theorem perform_request (h : store.Coherent) {op : Operation} (hOp : store.perform op = .ok next)
    (hCancels : op.cancels = false) : next.progress.cancelRequested = store.progress.cancelRequested := by
  refine (perform_changes h hOp).request fun event hEvent => ?_
  cases op with
  | cancel => cases hCancels
  | acceptReviews expectedVersion actor values =>
      obtain ⟨time, _, rfl⟩ := List.mem_map.mp hEvent
      rfl
  | expireCandidate claim time =>
      rw [List.mem_singleton.mp hEvent]
      split <;> rfl
  | claimAndDispatch =>
      rcases List.mem_pair.mp hEvent with rfl | rfl <;> rfl
  | _ =>
      rw [List.mem_singleton.mp hEvent]
      rfl

/-- Only an operation that occupies a slot makes an idle Run active. -/
theorem perform_active (h : store.Coherent) {op : Operation} (hOp : store.perform op = .ok next)
    (hAdmitted : op.admitted = false) (hActive : next.Active) : store.Active ∨ store.Occupies op := by
  rcases perform_rests h hOp hAdmitted with hRests | ⟨hRecovers, _⟩
  · rcases hActive with hCollecting | ⟨hBlocked, hRequested⟩
    · exact .inl (.inl (hRests.collecting hCollecting))
    · rcases hRests.begun (.inr hBlocked) with hStatus | hStatus
      · exact .inl (.inl hStatus)
      · by_cases hBefore : store.progress.cancelRequested = none
        swap
        · exact .inl (.inr ⟨hStatus, hBefore⟩)
        · cases hCancels : op.cancels with
          | true => exact .inr (.inr ⟨hCancels, hStatus, hBefore⟩)
          | false => exact absurd ((perform_request h hOp hCancels).trans hBefore) hRequested
  · exact .inr (.inl hRecovers)

end Store

end QsAi
