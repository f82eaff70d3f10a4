import QsAi.Run.Cancellation

/-! Candidate Runs on one clock. While such a Run collects, its calls were sent
and its unknown results came after the last transition, so no report of a call
that is out is refused for its time. -/
namespace QsAi

open Guarded Keyed Numbered

namespace Store

variable {store next : Store} {event : Event} {now : DateTime}

/-- Nothing but work can follow. -/
def Progressing (store : Store) : Prop :=
  store.progress.status = .requested ∨ store.progress.status = .collecting ∨ store.progress.status = .blocked

/-- The unknown execution still waits for a decision. -/
def Undecided (store : Store) (completion : Completion) : Prop :=
  completion ∈ store.book.completions ∧ completion.status = .resultUnknown ∧
    completion.executionId ∉ store.progress.resultUnknownResolutions.map (·.executionId)

/-- The times of the Run, when the clock shows `now`. -/
structure Clocked (now : DateTime) (store : Store) : Prop where
  past : store.Progressing → ∀ t ∈ store.progress.transitions, t.time ≤ now
  ended : ∀ completion ∈ store.book.completions, completion.finishedAt ≤ now
  unstarted : store.progress.status = .requested → store.progress.unresolvedResultUnknownCount = 0
  sent : ∀ cp ∈ store.live, ∀ time ∈ cp.dispatchStartedAt, ∀ t ∈ store.progress.transitions, t.time ≤ time
  unknown : store.progress.status = .collecting → ∀ completion, store.Undecided completion →
    ∀ t ∈ store.progress.transitions, t.time ≤ completion.finishedAt

theorem Clocked.later (h : store.Clocked now) {later : DateTime} (hLater : now ≤ later) : store.Clocked later :=
  ⟨fun hStatus t ht => (h.past hStatus t ht).trans hLater, fun c hc => (h.ended c hc).trans hLater, h.unstarted,
    h.sent, h.unknown⟩

/-- A Run without undecided executions by its counter has none. -/
theorem Coherent.decided (h : store.Coherent) (hStatus : store.progress.status ≠ .canceled)
    (hCount : store.progress.unresolvedResultUnknownCount = 0) (completion : Completion) :
    ¬ store.Undecided completion := by
  rintro ⟨hMem, hUnknown, hOpen⟩
  obtain ⟨r, hr, _, hSame⟩ := mem_replacedExecutions.mp (h.replaced hStatus hCount hMem hUnknown)
  exact hOpen (List.mem_map.mpr ⟨r, hr, hSame⟩)

theorem Keeps.undecided (hKeeps : store.Keeps next) {completion : Completion} (h : next.Undecided completion) :
    store.Undecided completion := by
  obtain ⟨hMem, hUnknown, hOpen⟩ := h
  rw [hKeeps.completions] at hMem
  rw [hKeeps.progress] at hOpen
  exact ⟨hMem, hUnknown, hOpen⟩

theorem Ended.undecided {cp : ExecutionCheckpoint} {completion other : Completion}
    (hEnded : store.Ended next cp completion) (h : next.Undecided other) :
    (other = completion ∧ completion.status = .resultUnknown) ∨ store.Undecided other := by
  obtain ⟨hMem, hUnknown, hOpen⟩ := h
  rw [hEnded.resolutions] at hOpen
  rcases hEnded.completed.mem_completions.mp hMem with rfl | hMem
  · exact .inl ⟨rfl, hUnknown⟩
  · exact .inr ⟨hMem, hUnknown, hOpen⟩

/-- A change of the owners only. -/
theorem Clocked.keeps (h : store.Clocked now) (hKeeps : store.Keeps next)
    (hSent : ∀ cp ∈ next.live, ∀ time ∈ cp.dispatchStartedAt, ∀ t ∈ store.progress.transitions, t.time ≤ time) :
    next.Clocked now := by
  refine ⟨?_, ?_, ?_, ?_, ?_⟩
  · unfold Progressing
    rw [hKeeps.progress]
    exact h.past
  · rw [hKeeps.completions]
    exact h.ended
  · rw [hKeeps.progress]
    exact h.unstarted
  · rw [hKeeps.progress]
    exact hSent
  · intro hStatus completion hUndecided
    rw [hKeeps.progress] at hStatus ⊢
    exact h.unknown hStatus completion (hKeeps.undecided hUndecided)

/-- A Run where nobody works and no unknown execution waits. -/
theorem Clocked.idle (h : store.Clocked now) (hNext : next.Coherent)
    (hCompletions : next.book.completions = store.book.completions) (hLive : next.live = [])
    (hPast : next.Progressing → ∀ t ∈ next.progress.transitions, t.time ≤ now)
    (hRequested : next.progress.status ≠ .requested)
    (hDecided : next.progress.status = .collecting → next.progress.unresolvedResultUnknownCount = 0) :
    next.Clocked now := by
  refine ⟨hPast, hCompletions ▸ h.ended, fun hStatus => absurd hStatus hRequested, ?_, ?_⟩
  · intro cp hCp
    rw [hLive] at hCp
    cases hCp
  · intro hStatus completion hUndecided
    exact absurd hUndecided (hNext.decided (by rw [hStatus]; decide) (hDecided hStatus) completion)

theorem past_snoc {transitions : List Transition} {added : Transition} (h : ∀ t ∈ transitions, t.time ≤ now)
    (hAdded : added.time ≤ now) : ∀ t ∈ transitions ++ [added], t.time ≤ now := by
  intro t ht
  rcases List.mem_append.mp ht with ht | ht
  · exact h t ht
  · rw [List.mem_singleton.mp ht]
    exact hAdded

/-! Completions. -/

theorem Clocked.reported_after (h : store.Clocked now) {cp : ExecutionCheckpoint} {completion : Completion}
    (hEnded : store.Ended next cp completion) : ∀ t ∈ store.progress.transitions, t.time ≤ completion.finishedAt := by
  obtain ⟨time, hTime, hStarted⟩ := hEnded.completed.ends.started
  intro t ht
  calc
    t.time ≤ time := h.sent cp hEnded.completed.mem_live time hTime t ht
    _ ≤ completion.startedAt := hStarted
    _ ≤ completion.finishedAt := completion.startedAt_le_finishedAt

theorem Clocked.ended_next (h : store.Clocked now) {cp : ExecutionCheckpoint} {completion : Completion}
    (hEnded : store.Ended next cp completion) (hTime : completion.finishedAt ≤ now) :
    ∀ other ∈ next.book.completions, other.finishedAt ≤ now := by
  intro other hOther
  rcases hEnded.completed.mem_completions.mp hOther with rfl | hOther
  · exact hTime
  · exact h.ended other hOther

/-- A completion after which the Run goes on as before. -/
theorem Clocked.counts (h : store.Clocked now) {cp : ExecutionCheckpoint} {completion : Completion}
    (hEnded : store.Ended next cp completion) (hTime : completion.finishedAt ≤ now)
    (hBefore : store.progress.status = .collecting) (hStatus : next.progress.status = .collecting)
    (hTransitions : next.progress.transitions = store.progress.transitions) : next.Clocked now := by
  refine ⟨?_, h.ended_next hEnded hTime, ?_, ?_, ?_⟩
  · rw [hTransitions]
    exact fun _ => h.past (.inr (.inl hBefore))
  · intro hRequested
    rw [hStatus] at hRequested
    cases hRequested
  · intro owner hOwner
    obtain ⟨rest, hLive, hNext⟩ := hEnded.completed.live
    rw [hTransitions]
    exact h.sent owner (hLive.mem_iff.mpr (List.mem_cons_of_mem _ (hNext.mem_iff.mp hOwner)))
  · intro _ other hUndecided
    rw [hTransitions]
    rcases hEnded.undecided hUndecided with ⟨rfl, _⟩ | hUndecided
    · exact h.reported_after hEnded
    · exact h.unknown hBefore other hUndecided

/-- A completion after which the Run stops collecting. -/
theorem Clocked.stops (h : store.Clocked now) {cp : ExecutionCheckpoint} {completion : Completion}
    (hEnded : store.Ended next cp completion) (hTime : completion.finishedAt ≤ now) (hLive : next.live = [])
    (hPast : next.Progressing → ∀ t ∈ next.progress.transitions, t.time ≤ now)
    (hStatus : next.progress.status = .blocked ∨ next.progress.status = .awaitingReview) : next.Clocked now := by
  have hOther : next.progress.status ≠ .requested ∧ next.progress.status ≠ .collecting := by
    rcases hStatus with hStatus | hStatus <;> rw [hStatus] <;> decide
  refine ⟨hPast, h.ended_next hEnded hTime, fun hSame => absurd hSame hOther.1, ?_, fun hSame => absurd hSame hOther.2⟩
  intro owner hOwner
  rw [hLive] at hOwner
  cases hOwner

/-- Block evidence is terminal evidence of the Run. -/
theorem mem_of_evidence (h : store.Valid) {row : Evidence}
    (hRow : row ∈ store.generations.map (·.asEvidence) ++ store.semantics.map (·.asEvidence)) :
    ∃ completion ∈ store.book.completions, completion.executionId = row.executionId ∧
      completion.status = row.status ∧ completion.finishedAt = row.finishedAt := by
  rcases List.mem_append.mp hRow with hRow | hRow
  · obtain ⟨stored, hStored, rfl⟩ := List.mem_map.mp hRow
    exact ⟨_, Book.generation_mem hStored, (h.sound.candidates.generationIndex stored hStored).1, rfl, rfl⟩
  · obtain ⟨stored, hStored, rfl⟩ := List.mem_map.mp hRow
    exact ⟨_, Book.semantic_mem hStored, (h.sound.candidates.semanticIndex stored hStored).2.1, rfl, rfl⟩

theorem earliest_mem {rows : List Evidence} {row : Evidence} (h : earliest rows = some row) : row ∈ rows := by
  induction rows with
  | nil => cases h
  | cons first rest ih =>
      unfold earliest at h
      split at h
      · cases h
        exact List.mem_cons_self
      · rename_i other hOther
        split at h
        · cases h
          exact List.mem_cons_of_mem _ (ih hOther)
        · cases h
          exact List.mem_cons_self

theorem earliest_total {rows : List Evidence} (h : rows ≠ []) : ∃ row, earliest rows = some row := by
  cases rows with
  | nil => exact absurd rfl h
  | cons first rest =>
      unfold earliest
      split
      · exact ⟨_, rfl⟩
      · split
        · exact ⟨_, rfl⟩
        · exact ⟨_, rfl⟩

theorem blockedExecution_mem {generations : List GenerationRow} {semantics : List SemanticRow} {progress : Progress}
    {cause : Cause} {blocked : List NextAction} {reference : String} {failedAt : DateTime}
    (h : blockedExecution generations semantics progress cause blocked = .ok (reference, failedAt)) :
    ∃ row ∈ generations.map (·.asEvidence) ++ semantics.map (·.asEvidence), row.finishedAt = failedAt := by
  unfold blockedExecution at h
  split at h
  · simp only [bind_ok, demand_ok, pure_ok, Prod.mk.injEq] at h
    obtain ⟨row, hRow, _, hTime⟩ := h
    exact ⟨row, (List.mem_filter.mp (earliest_mem hRow)).1, hTime⟩
  · simp only [bind_ok, demand_ok, require_ok, exists_const, pure_ok, Prod.mk.injEq] at h
    obtain ⟨action, _, found, hFound, row, rfl, _, _, hTime⟩ := h
    refine ⟨row, ?_, hTime⟩
    -- the only row of the execution that stopped
    have hMem : row ∈ stoppedEvidence generations semantics action (cause.startsWith "semantic_") := by
      unfold oneOrNone at hFound
      split at hFound
      · cases (pure_ok _ _).mp hFound
      · rename_i only hOnly
        cases (pure_ok _ _).mp hFound
        rw [hOnly]
        exact List.mem_singleton_self _
      · cases hFound
    unfold stoppedEvidence at hMem
    split at hMem
    · obtain ⟨stored, hStored, rfl⟩ := List.mem_map.mp hMem
      exact List.mem_append_right _ (List.mem_map_of_mem (List.mem_filter.mp hStored).1)
    · obtain ⟨stored, hStored, rfl⟩ := List.mem_map.mp hMem
      exact List.mem_append_left _ (List.mem_map_of_mem (List.mem_filter.mp hStored).1)

theorem Drains.clocked {claim : SlotClaim} {actor : String} {completion : Completion}
    (hDrains : store.Drains next claim actor completion) (hEnded : store.Ended next claim.checkpoint completion)
    (h : store.Coherent) (hClocked : store.Clocked now) (hTime : completion.finishedAt ≤ now) : next.Clocked now := by
  have hBefore := (hDrains.before h).1
  have hNext := (h.drain hEnded hDrains).toValid
  have hPast := hClocked.past (.inr (.inl hBefore))
  have hCounted : (store.progress.counted completion).status = .collecting := by
    rw [Progress.counted_status]
    exact hBefore
  have hTransitions := (Progress.counted_kept store.progress completion).1
  have hCounts : next.progress = store.progress.counted completion → next.Clocked now := fun hProgress =>
    hClocked.counts hEnded hTime hBefore (hProgress ▸ hCounted) (hProgress ▸ hTransitions)
  have hRows : ∀ {row : Evidence}, row ∈ next.generations.map (·.asEvidence) ++ next.semantics.map (·.asEvidence) →
      row.finishedAt ≤ now := by
    intro row hRow
    obtain ⟨other, hMem, _, _, hSame⟩ := mem_of_evidence hNext hRow
    rw [← hSame]
    exact hClocked.ended_next hEnded hTime other hMem
  cases hDrains.aggregates h with
  | working _ hProgress => exact hCounts hProgress
  | draining _ _ _ hProgress => exact hCounts hProgress
  | waiting _ _ _ _ _ _ hProgress => exact hCounts hProgress
  | unknown hIdle hRow _ _ hProgress =>
      refine hClocked.stops hEnded hTime hIdle ?_ (.inl (by rw [hProgress]))
      rw [hProgress]
      exact fun _ => past_snoc hPast (hRows (List.mem_filter.mp (earliest_mem hRow)).1)
  | closes hIdle _ _ _ _ hProgress =>
      refine hClocked.stops hEnded hTime hIdle ?_ (.inr (by rw [hProgress]))
      rw [Progressing, hProgress]
      rintro (hStatus | hStatus | hStatus) <;> cases hStatus
  | @blocks _ action _ _ failedAt last hIdle _ _ _ _ _ _ hEvidence hLast _ hProgress =>
      refine hClocked.stops hEnded hTime hIdle ?_ (.inl (by rw [hProgress]))
      rw [hProgress]
      intro _
      obtain ⟨row, hRow, hFailed⟩ := blockedExecution_mem hEvidence
      have hFailed : failedAt ≤ now := hFailed ▸ hRows hRow
      refine past_snoc hPast ?_
      split
      · obtain ⟨transition, hMem, rfl⟩ := Option.map_eq_some_iff.mp hLast
        have hKnown : ∀ t ∈ [completion.finishedAt, failedAt, transition.time], t ≤ now := by
          simp only [List.forall_mem_cons, List.not_mem_nil, false_implies, implies_true, and_true]
          exact ⟨hTime, hFailed, hPast transition (List.mem_of_getLast? hMem)⟩
        exact hKnown _ (DateTime.latest_mem _ _)
      · exact hFailed

theorem Settles.clocked {cp : ExecutionCheckpoint} {owner : String} {completion : Completion}
    (hSettles : store.Settles next cp) (hEnded : store.Ended next cp completion)
    (hConcludes : store.Concludes next owner completion) (h : store.Coherent) (hClocked : store.Clocked now)
    (hTime : completion.finishedAt ≤ now) : next.Clocked now := by
  have hBefore := hSettles.collecting
  have hPast := hClocked.past (.inr (.inl hBefore))
  have hIdle := (hSettles.live h.toValid).2
  cases hConcludes with
  | continues _ hStatus hTransitions =>
      exact hClocked.counts hEnded hTime hBefore (hStatus.trans hBefore) hTransitions
  | blocks _ hStatus hTransitions =>
      refine hClocked.stops hEnded hTime hIdle ?_ (.inl hStatus)
      rw [hTransitions]
      exact fun _ => past_snoc hPast hTime
  | closes _ _ _ _ _ _ _ hStatus =>
      refine hClocked.stops hEnded hTime hIdle ?_ (.inr hStatus)
      rw [Progressing, hStatus]
      rintro (hSame | hSame | hSame) <;> cases hSame

/-- Every change that keeps to the clock keeps the times of the Run. -/
theorem Change.clocked (hChange : store.Change event next) (h : store.Coherent) (hEvent : event.Timely now)
    (hClocked : store.Clocked now) : next.Clocked now := by
  have hNext := hChange.coherent h
  cases hChange with
  | start hIdle hStatus hTarget _ =>
      have hLive : store.live = [] := h.idle (by rw [hStatus]; decide)
      refine hClocked.idle hNext rfl hLive ?_ ?_ fun _ => hClocked.unstarted hStatus
      · intro _
        exact past_snoc (hClocked.past (.inl hStatus)) (le_of_eq hEvent)
      · rcases hTarget with rfl | rfl <;> exact fun hSame => by cases hSame
  | @preflight evidence hIdle hStatus hNone hCase =>
      have hUnproven : ¬ store.Passed := by
        rintro ⟨passed, hPassed, _⟩
        rw [hNone] at hPassed
        cases hPassed
      have hLive : store.live = [] := by
        by_contra hSome
        exact hUnproven (h.working hSome).2
      have hPast := hClocked.past (.inr (.inl hStatus))
      refine ⟨?_, hClocked.ended, ?_, ?_, ?_⟩
      · intro _
        split
        · exact past_snoc hPast (le_of_eq hEvent)
        · exact hPast
      · split
        · exact fun hSame => by cases hSame
        · exact hClocked.unstarted
      · intro cp hCp
        have hCp : cp ∈ store.live := hCp
        rw [hLive] at hCp
        cases hCp
      · intro hCollecting completion hUndecided
        split at hCollecting
        · cases hCollecting
        · rename_i hPassed
          rw [if_neg hPassed]
          refine hClocked.unknown hStatus completion ⟨hUndecided.1, hUndecided.2.1, ?_⟩
          have hOpen := hUndecided.2.2
          rw [if_neg hPassed] at hOpen
          exact hOpen
  | prepare hOpens hKeeps _ hLive =>
      refine hClocked.keeps hKeeps fun owner hOwner time hTime => ?_
      rcases List.mem_cons.mp (hLive.mem_iff.mp hOwner) with rfl | hOwner
      · rw [owner.facts.prepared hOpens.phase] at hTime
        cases hTime
      · exact hClocked.sent owner hOwner time hTime
  | dispatch hStatus _ _ _ _ hStarted _ hKeeps _ hLive hOwners =>
      refine hClocked.keeps hKeeps fun owner hOwner time hTime => ?_
      rcases List.mem_cons.mp (hOwners.mem_iff.mp hOwner) with rfl | hOwner
      · rw [hStarted] at hTime
        cases hTime
        have hNow : _ = now := hEvent
        rw [hNow]
        exact hClocked.past (.inr (.inl hStatus))
      · exact hClocked.sent owner (hLive.mem_iff.mpr (List.mem_cons_of_mem _ hOwner)) time hTime
  | @renew cp renewed _ _ hCall hKeeps _ hLive hOwners =>
      refine hClocked.keeps hKeeps fun owner hOwner time hTime => ?_
      rcases List.mem_cons.mp (hOwners.mem_iff.mp hOwner) with rfl | hOwner
      · refine hClocked.sent cp (hLive.mem_iff.mpr List.mem_cons_self) time ?_
        simp only [ExecutionCheckpoint.call, CheckpointFields.mk.injEq] at hCall
        rw [← hCall.2.2.2.2.2.2.2.2.2.2.2]
        exact hTime
      · exact hClocked.sent owner (hLive.mem_iff.mpr (List.mem_cons_of_mem _ hOwner)) time hTime
  | release _ _ hKeeps _ hLive hOwners =>
      refine hClocked.keeps hKeeps fun owner hOwner => ?_
      exact hClocked.sent owner (hLive.mem_iff.mpr (List.mem_cons_of_mem _ (hOwners.mem_iff.mp hOwner)))
  | drain hEnded hDrains => exact hDrains.clocked hEnded h hClocked hEvent
  | settle _ hSettles hEnded hConcludes => exact hSettles.clocked hEnded hConcludes h hClocked hEvent
  | resolve hIdle hClaims hStatus hResult =>
      have hLive : store.live = [] := h.idle (by rw [hStatus]; decide)
      have hPast := hClocked.past (.inr (.inr hStatus))
      refine hClocked.idle hNext rfl hLive ?_ ?_ fun hSame => (resolved_collecting hResult hSame).2
      · intro _
        split
        · exact hPast
        · exact past_snoc hPast (le_of_eq hEvent)
      · obtain ⟨_, _, _, _, _, _, rfl⟩ := resolveUnknown_ok.mp hResult
        intro hSame
        simp only at hSame
        split_ifs at hSame
  | recover hRecovers =>
      have hLive : store.live = [] := h.idle (by rw [hRecovers.blocked]; decide)
      have hPast := hClocked.past (.inr (.inr hRecovers.blocked))
      have hResult := hRecovers.next
      subst hResult
      refine hClocked.idle hNext rfl hLive ?_ (fun hSame => by cases hSame) fun _ => hRecovers.resolved
      exact fun _ => past_snoc hPast (le_of_eq hEvent)
  | requestCancel hRequests =>
      have hResult := hRequests.next
      subst hResult
      exact ⟨hClocked.past, hClocked.ended, hClocked.unstarted, hClocked.sent, hClocked.unknown⟩
  | endCanceled _ hEnds =>
      have hLive := hEnds.live h.toValid
      have hResult := hEnds.next
      subst hResult
      refine hClocked.idle hNext rfl hLive ?_ (fun hSame => by cases hSame) (fun hSame => by cases hSame)
      rintro (hSame | hSame | hSame) <;> cases hSame
  | review hReviews =>
      have hReviewed := hReviews.reviewed
      have hOther : ¬ next.Progressing := by
        unfold Progressing
        rcases hReviewed.after with hStatus | hStatus | hStatus <;> rw [hStatus] <;>
          rintro (hSame | hSame | hSame) <;> cases hSame
      have hIdle : store.live = [] := by
        refine h.idle ?_
        rcases hReviewed.before with hStatus | hStatus <;> rw [hStatus] <;> decide
      refine hClocked.idle hNext ?_ ?_ (fun hSame => absurd hSame hOther) (fun hSame => hOther (.inl hSame))
        fun hSame => absurd (.inr (.inl hSame)) hOther
      · rw [hReviewed.next]
        rfl
      · rw [hReviewed.next]
        exact hIdle
  | unchanged => exact hClocked

end Store

theorem Reaches.clocked {allowed : DateTime → Store → Operation → Prop} {creation : Creation} {now : DateTime}
    {store : Store} (hReaches : Reaches allowed creation now store)
    (hTimely : ∀ {now : DateTime} {store : Store} {op : Operation}, allowed now store op → op.Timely now) :
    store.Clocked now := by
  refine hReaches.invariant ?_ (fun hClock hClocked => hClocked.later hClock) ?_
  · intro now hCreated
    refine ⟨?_, ?_, fun _ => rfl, ?_, ?_⟩
    · intro _ t ht
      obtain rfl := List.mem_singleton.mp ht
      exact hCreated
    · intro completion hMem
      cases hMem
    · intro cp hCp
      cases hCp
    · intro hStatus
      cases hStatus
  · intro now store next op hCoherent _ hAllowed hChanges hClocked
    exact hChanges.keeps hCoherent (hTimely hAllowed) (fun h hEvent hChange hClocked => hChange.clocked h hEvent hClocked)
      hClocked

/-! Distinct owners. -/

/-- The invocation that a new owner brings. -/
def Operation.invocation : Operation → Option String
  | .prepareCandidate _ _ invocationId _ _ _ => some invocationId
  | .claimAndDispatch _ _ invocationId _ _ _ _ => some invocationId
  | .prepareExecution _ _ _ invocationId _ _ => some invocationId
  | _ => none

/-- A new owner brings an invocation that no other owner has. -/
def Operation.Fresh (store : Store) (op : Operation) : Prop :=
  ∀ id ∈ op.invocation, id ∉ store.live.map (·.invocationId)

instance (store : Store) (op : Operation) : Decidable (op.Fresh store) :=
  inferInstanceAs (Decidable (∀ id ∈ op.invocation, _))

namespace Store

variable {store next : Store} {event : Event} {now : DateTime}

theorem Distinct.of_sub (h : store.Distinct)
    (hSub : (next.live.map (·.invocationId)).Subperm (store.live.map (·.invocationId))) : next.Distinct := by
  obtain ⟨owners, hPerm, hOwners⟩ := hSub
  exact hPerm.nodup_iff.mp (hOwners.nodup h)

theorem Distinct.of_live (h : store.Distinct) (hLive : next.live = store.live) : next.Distinct := by
  unfold Distinct
  rw [hLive]
  exact h

theorem distinct_nil (hLive : store.live = []) : store.Distinct := by
  unfold Distinct
  rw [hLive]
  exact List.nodup_nil

/-- Only a preparation brings a new owner. -/
theorem Change.distinct (hChange : store.Change event next) (h : store.Coherent)
    (hEvent : ∀ time, event ≠ .prepared time) (hDistinct : store.Distinct) : next.Distinct := by
  cases hChange with
  | prepare => exact absurd rfl (hEvent _)
  | dispatch _ _ _ _ hDispatches _ _ _ _ hLive hOwners =>
      refine hDistinct.of_sub (List.Perm.subperm ?_)
      have hBefore := hLive.map (·.invocationId)
      have hAfter := hOwners.map (·.invocationId)
      obtain ⟨_, hFields⟩ := hDispatches.fields
      rw [List.map_cons, hFields] at hAfter
      exact hAfter.trans hBefore.symm
  | renew hCall _ _ hLive hOwners =>
      refine hDistinct.of_sub (List.Perm.subperm ?_)
      have hBefore := hLive.map (·.invocationId)
      have hAfter := hOwners.map (·.invocationId)
      rw [List.map_cons, (ExecutionCheckpoint.same_of_call hCall).1] at hAfter
      exact hAfter.trans hBefore.symm
  | release _ _ _ _ hLive hOwners =>
      refine hDistinct.of_sub ?_
      refine (hOwners.map _).subperm.trans (List.Subperm.trans ?_ (hLive.map (·.invocationId)).symm.subperm)
      exact (List.sublist_cons_self _ _).subperm
  | drain hEnded hDrains =>
      obtain ⟨rest, hLive, hOwners⟩ := hDrains.live h.toValid
      refine hDistinct.of_sub ?_
      refine (hOwners.map _).subperm.trans (List.Subperm.trans ?_ (hLive.map (·.invocationId)).symm.subperm)
      exact (List.sublist_cons_self _ _).subperm
  | settle _ hSettles => exact distinct_nil (hSettles.live h.toValid).2
  | recover hRecovers =>
      rw [hRecovers.next]
      exact hDistinct.of_live rfl
  | requestCancel hRequests =>
      rw [hRequests.next]
      exact hDistinct.of_live rfl
  | endCanceled _ hEnds => exact distinct_nil (hEnds.live h.toValid)
  | review hReviews =>
      rw [hReviews.reviewed.next]
      exact hDistinct.of_live rfl
  | _ => exact hDistinct.of_live rfl

/-- A prepared claim with a fresh invocation. -/
theorem prepareCandidate_distinct (h : store.Valid) {owner executionId invocationId : String}
    {time expiresAt : DateTime} {limit : Nat} {claim : SlotClaim}
    (hOk : store.prepareCandidate owner executionId invocationId time expiresAt limit = .ok (claim, next))
    (hFresh : invocationId ∉ store.live.map (·.invocationId)) (hDistinct : store.Distinct) : next.Distinct := by
  obtain ⟨hMode, _, _, rfl, _, rfl⟩ := prepareCandidate_ok h hOk
  have hNone := h.shaped.candidate hMode
  have hLive : Store.live { store with
      version := store.version + 1
      claims := store.claims ++ [⟨claim.checkpoint.caseId, claim.checkpoint.slotOrdinal, claim⟩] } =
      store.live ++ [claim.checkpoint] := by
    simp [Store.live, hNone]
  unfold Distinct UniqueOn
  rw [hLive, List.map_append, List.nodup_append]
  refine ⟨hDistinct, List.nodup_singleton _, ?_⟩
  intro id hId other hOther
  rintro rfl
  rw [List.map_singleton, List.mem_singleton] at hOther
  exact hFresh (hOther ▸ hId)

theorem perform_distinct (h : store.Coherent) {op : Operation} (hFresh : op.Fresh store)
    (hOp : store.perform op = .ok next) (hDistinct : store.Distinct) : next.Distinct := by
  have hChanges := perform_changes h hOp
  have hKeeps : (∀ event ∈ op.events, ∀ time, event ≠ .prepared time) → next.Distinct := fun hEvents =>
    hChanges.keeps h hEvents (fun h hEvent hChange hDistinct => hChange.distinct h hEvent hDistinct) hDistinct
  cases op with
  | prepareCandidate owner executionId invocationId time expiresAt limit =>
      simp only [perform, bind_ok] at hOp
      obtain ⟨⟨claim, claimed⟩, hPrepare, hPure⟩ := hOp
      rw [pure_ok] at hPure
      subst hPure
      exact prepareCandidate_distinct h.toValid hPrepare (hFresh _ rfl) hDistinct
  | claimAndDispatch owner executionId invocationId claimedAt expiresAt limit time =>
      simp only [perform, claimAndDispatch, bind_ok] at hOp
      obtain ⟨⟨claim, claimed⟩, hPrepare, hDispatch⟩ := hOp
      have hClaimed := (prepareCandidate_change h.toValid hPrepare).coherent h
      have hMiddle := prepareCandidate_distinct h.toValid hPrepare (hFresh _ rfl) hDistinct
      exact (dispatchClaim_change hClaimed.toValid hDispatch).distinct hClaimed
        (fun _ hSame => by cases hSame) hMiddle
  | prepareExecution expectedVersion owner executionId invocationId time leaseExpiresAt =>
      obtain ⟨hMode, _, cp, _, _, _, _, rfl⟩ := prepareExecution_ok h.toValid hOp
      unfold Distinct UniqueOn Store.live
      rw [h.shaped.serial hMode]
      exact List.nodup_singleton _
  | expireCandidate claim time =>
      refine hKeeps fun event hEvent time => ?_
      obtain rfl := List.mem_singleton.mp hEvent
      split <;> exact fun hSame => by cases hSame
  | acceptReviews expectedVersion actor values =>
      refine hKeeps fun event hEvent time => ?_
      obtain ⟨_, _, rfl⟩ := List.mem_map.mp hEvent
      exact fun hSame => by cases hSame
  | _ => exact hKeeps (by simp [Operation.events, Completion.event])

end Store

theorem Reaches.distinct {allowed : DateTime → Store → Operation → Prop} {creation : Creation} {now : DateTime}
    {store : Store} (hReaches : Reaches allowed creation now store)
    (hFresh : ∀ {now : DateTime} {store : Store} {op : Operation}, allowed now store op → op.Fresh store) :
    store.Distinct := by
  induction hReaches with
  | create _ => exact Store.distinct_nil rfl
  | step hReaches _ hAllowed hOp ih => exact Store.perform_distinct hReaches.coherent.1 (hFresh hAllowed) hOp ih

end QsAi
