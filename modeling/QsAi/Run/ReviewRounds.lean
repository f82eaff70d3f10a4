import QsAi.Run.Reachable
import QsAi.Run.Reopening

/-! Runs of a review. From the closed collection on, signatures, corrections,
decisions and reopenings follow each other in whatever order they are accepted;
what one of them writes is read by all later ones. -/
namespace QsAi

open Guarded Keyed Numbered

/-- The operations of a review. -/
def Operation.IsReview : Operation → Prop
  | .acceptReviews .. => True
  | .correctReview .. => True
  | .finalize .. => True
  | .reopen .. => True
  | _ => False

def Operation.Reopens : Operation → Prop
  | .reopen .. => True
  | _ => False

namespace Store

/-- The collection is closed and its review has not begun. -/
structure Collected (store : Store) : Prop where
  awaits : store.progress.status = .awaitingReview
  unsigned : store.progress.humanReviews = [] ∧ store.progress.reviewCorrections = []
  unopened : store.progress.reviewReopenings = []
  undecided : store.progress.gateResult = none ∧ store.progress.finalizedAt = none

/-- The stores that a review reaches, when it takes allowed operations only. -/
inductive ReviewRun (allowed : Store → Operation → Prop) (base : Store) : Store → Prop
  | start : ReviewRun allowed base base
  | step {store next : Store} {op : Operation} (hRun : ReviewRun allowed base store) (hReview : op.IsReview)
      (hAllowed : allowed store op) (hOp : store.perform op = .ok next) : ReviewRun allowed base next

variable {store next : Store}

/-! The conditions before and after a decision. -/

variable {decided : Store} {time later reading : DateTime} {snapshot : GateSnapshot} {record : FinalRecord}
  {context : GateContext}

theorem Finalizes.storesExactly_iff (h : store.Finalizes decided time snapshot record) :
    store.creation.assets.encoding.stored record = record ↔ store.StoresExactly := by
  obtain ⟨context, hContext, hSnapshot, _, _, _, _, _, _, hResult, _⟩ := h.facts
  obtain ⟨_, _, _, _, hQuality, _⟩ := reviewSnapshot_ok hSnapshot
  rw [stored_eq_iff, hResult, metrics_of_quality hQuality]
  constructor
  · intro hMetrics other hOther
    obtain rfl : context = other := Except.ok.inj (hContext.symm.trans hOther)
    exact hMetrics
  · exact fun hExact => hExact context hContext

theorem Finalizes.storesExactly_of_decided (h : store.Finalizes decided time snapshot record)
    (hExact : decided.StoresExactly) : store.StoresExactly := by
  intro context hContext
  have hDecided := (Reviews.finalizes h).reviewed.gateContext hContext
  have hCreation : decided.creation = store.creation := by rw [h.next]
  rw [← hCreation]
  exact hExact context hDecided

theorem Finalizes.retainsReviews_of_decided (h : store.Finalizes decided time snapshot record)
    (hRetains : decided.RetainsReviews) : store.RetainsReviews := by
  intro last hLast reviews hReviews
  rw [h.next] at hRetains
  exact hRetains last hLast reviews (effectiveReviews_later (Nat.le_succ _) hReviews)

/-! What a review writes. -/

/-- The ended rounds of an open review pass their validation from the last
reopening on. -/
def AcceptsRounds (store : Store) : Prop :=
  ∃ context, store.gateContext = .ok context ∧ ∀ reading,
    (∀ last ∈ store.progress.reviewReopenings.getLast?, last.reopenedAt ≤ reading) →
    store.validateRounds context reading = .ok ()

theorem Signs.acceptsRounds {values : List CandidateHumanReview} (h : store.Signs next time values)
    (hRounds : store.progress.reviewReopenings ≠ []) (hStore : store.AcceptsRounds) : next.AcceptsRounds := by
  obtain ⟨context, hContext, hAccepts⟩ := hStore
  refine ⟨context, (Reviews.signs h).reviewed.gateContext hContext, fun reading hReading => ?_⟩
  have hNext := h.next
  have hReopenings : next.progress.reviewReopenings = store.progress.reviewReopenings := by rw [hNext]
  have hCreation : next.creation = store.creation := by rw [hNext]
  rw [hReopenings] at hReading
  obtain ⟨hCount, hSize, hLength, hNamed, hTimes, plans, hPlans, hHistory⟩ :=
    validateRounds_ok.mp (hAccepts reading hReading)
  obtain ⟨hThree, hCheck, hCurrent⟩ := validateReopeningHistory_ok.mp hHistory
  obtain ⟨_, hLast⟩ := checkRounds_last hPlans
  have hNew : ∀ last ∈ store.progress.reviewReopenings.getLast?, ∀ v ∈ values, v.candidateId ∈ last.candidateIds →
      last.reopenedAt ≤ v.reviewedAt := by
    intro last hSome
    have hReopened := h.reopened
    have hHas : store.progress.hasReviewRounds := .inl hRounds
    rw [checkReopened, if_pos hHas, Option.mem_def.mp hSome] at hReopened
    simp only [demand, ok_bind] at hReopened
    exact (require_ok _ _ _).mp hReopened
  have hAgain : next.checkRounds context reading 0 1 store.progress.reviewReopenings = .ok plans := by
    refine checkRounds_later hCreation ?_ ?_ le_rfl hPlans
    · rw [hNext]
      exact Nat.le_succ _
    · rw [hNext]
  rw [validateRounds_ok, hReopenings, hCreation]
  refine ⟨hCount, hSize, ?_, ?_, ?_, plans, hAgain, validateReopeningHistory_ok.mpr ⟨hThree, hCheck, ?_⟩⟩
  · rw [hNext]
    exact hLength
  · rw [hNext]
    exact hNamed
  · rw [hNext]
    exact hTimes
  · intro plan hPlan
    obtain ⟨hFresh, hRetained⟩ := validateReopenedReviews_ok.mp (hCurrent plan hPlan)
    obtain ⟨last, hSome⟩ := Option.ne_none_iff_exists'.mp (mt List.getLast?_eq_none_iff.mp hRounds)
    obtain ⟨found, hFound, _, hIds, hOpened, _⟩ := hLast last hSome
    obtain rfl : found = plan := Option.some.inj (hFound.symm.trans hPlan)
    have hReviews : next.progress.humanReviews = store.progress.humanReviews ++ values := by rw [hNext]
    rw [hReviews]
    refine validateReopenedReviews_ok.mpr ⟨fun r hr hId => ?_, fun r hr hId => ?_⟩
    · rcases List.mem_append.mp hr with hr | hr
      · exact hFresh r hr hId
      · rw [hOpened]
        rw [hIds] at hId
        exact hNew last hSome r hr hId
    · obtain ⟨kept, hKept, hSame⟩ := hRetained r hr hId
      exact ⟨kept, List.mem_append_left _ hKept, hSame⟩

theorem Corrects.acceptsRounds {entry : ReviewCorrection} (h : store.Corrects next time entry)
    (hStore : store.AcceptsRounds) : next.AcceptsRounds := by
  obtain ⟨context, hContext, hAccepts⟩ := hStore
  refine ⟨context, (Reviews.corrects h).reviewed.gateContext hContext, fun reading hReading => ?_⟩
  have hNext := h.next
  have hReopenings : next.progress.reviewReopenings = store.progress.reviewReopenings := by rw [hNext]
  have hCreation : next.creation = store.creation := by rw [hNext]
  rw [hReopenings] at hReading
  obtain ⟨hCount, hSize, hLength, hNamed, hTimes, plans, hPlans, hHistory⟩ :=
    validateRounds_ok.mp (hAccepts reading hReading)
  -- The reading of the rounds at the time of the correction bounds it from below.
  have hAfter : ∀ last ∈ store.progress.reviewReopenings.getLast?, last.reopenedAt ≤ entry.review.reviewedAt := by
    intro last hSome
    obtain ⟨loaded, hLoaded⟩ := h.loaded
    obtain ⟨_, _, _, _, own, _, hSnapshot⟩ := loadSnapshot_ok hLoaded
    obtain ⟨_, _, _, hRounds, _⟩ := reviewSnapshot_ok hSnapshot
    obtain ⟨_, _, _, _, _, before, hBefore, _⟩ := validateRounds_ok.mp hRounds
    obtain ⟨plan, _, _, _, hOpened, _, hPast⟩ := (checkRounds_last hBefore).2 last hSome
    rw [h.timed, ← hOpened]
    exact hPast
  have hAgain : next.checkRounds context reading 0 1 store.progress.reviewReopenings = .ok plans := by
    refine checkRounds_later hCreation ?_ ?_ le_rfl hPlans
    · rw [hNext]
      exact Nat.le_succ _
    · rw [hNext]
  have hCorrections : next.progress.reviewCorrections = store.progress.reviewCorrections ++ [entry] := by rw [hNext]
  rw [validateRounds_ok, hReopenings, hCreation, hCorrections]
  refine ⟨hCount, hSize, ?_, ?_, ?_, plans, hAgain, ?_⟩
  · rw [hNext]
    exact hLength
  · intro c hc
    rcases List.mem_append.mp hc with hc | hc
    · exact hNamed c hc
    · rw [List.mem_singleton.mp hc]
      exact h.named
  · intro last hSome c hc
    rcases List.mem_append.mp hc with hc | hc
    · exact hTimes last hSome c hc
    · rw [List.mem_singleton.mp hc]
      exact hAfter last hSome
  · rw [hNext]
    exact hHistory

theorem Rounds.acceptsRounds (h : store.Rounds decided next time later snapshot record) (hExact : store.StoresExactly)
    (hRetains : store.RetainsReviews) : next.AcceptsRounds := by
  obtain ⟨context, hContext, _⟩ := h.finalizes.facts
  refine ⟨context, h.gateContext hContext, fun reading hReading => ?_⟩
  obtain ⟨plan, entry, hOpened⟩ := h.opened
  have hLast : next.progress.reviewReopenings.getLast? = some entry := by
    rw [hOpened.next]
    exact List.getLast?_concat
  have hAt : entry.reopenedAt = later := by
    rw [hOpened.stored]
    exact hOpened.own.2.2
  refine (h.accepted_iff hContext ?_).mpr ⟨h.finalizes.storesExactly_iff.mpr hExact, hRetains⟩
  rw [← hAt]
  exact hReading entry hLast

/-- What holds of every store that a review reaches: an open one has accepted
rounds, a decided one was decided by its last step. -/
structure RoundsSound (store : Store) : Prop where
  accepts : store.progress.status = .awaitingReview → store.progress.reviewReopenings ≠ [] → store.AcceptsRounds
  decided : store.progress.status ≠ .awaitingReview →
    ∃ (before : Store) (time : DateTime) (snapshot : GateSnapshot) (record : FinalRecord),
      before.Finalizes store time snapshot record

theorem perform_roundsSound {op : Operation} (hReview : op.IsReview)
    (hKeeps : op.Reopens → store.StoresExactly ∧ store.RetainsReviews) (hOp : store.perform op = .ok next)
    (h : store.RoundsSound) : next.RoundsSound := by
  cases op with
  | acceptReviews expectedVersion actor values =>
      obtain ⟨time, _, hSigns⟩ := acceptReviews_ok hOp
      have hNext := hSigns.next
      refine ⟨fun _ hRounds => ?_, fun hDecided => ?_⟩
      · rw [hNext] at hRounds
        exact hSigns.acceptsRounds hRounds (h.accepts hSigns.awaits hRounds)
      · rw [hNext] at hDecided
        exact absurd hSigns.awaits hDecided
  | correctReview expectedVersion actor commandId previousReviewFingerprint candidateOutputFingerprint value =>
      rcases correctReview_ok hOp with rfl | ⟨entry, hCorrects⟩
      · exact h
      · have hNext := hCorrects.next
        refine ⟨fun _ hRounds => ?_, fun hDecided => ?_⟩
        · rw [hNext] at hRounds
          exact hCorrects.acceptsRounds (h.accepts hCorrects.awaits hRounds)
        · rw [hNext] at hDecided
          exact absurd hCorrects.awaits hDecided
  | finalize expectedVersion actor expectedPassed reason time confirm =>
      obtain ⟨snapshot, record, hFinalizes⟩ := finalize_ok hOp
      refine ⟨fun hAwaits _ => ?_, fun _ => ⟨store, time, snapshot, record, hFinalizes⟩⟩
      obtain ⟨_, _, _, _, _, _, _, _, _, _, hFinal⟩ := hFinalizes.facts
      rw [hFinalizes.next] at hAwaits
      rcases hFinal with hFinal | hFinal <;> rw [hFinal] at hAwaits <;> cases hAwaits
  | reopen expectedVersion actor reason time confirm =>
      obtain ⟨snapshot, hReopens⟩ := reopen_ok hOp
      have hOther : store.progress.status ≠ .awaitingReview := by
        rw [hReopens.rejected]
        decide
      obtain ⟨before, moment, earlier, record, hFinalizes⟩ := h.decided hOther
      obtain rfl : earlier = snapshot := Except.ok.inj (hFinalizes.verified.symm.trans hReopens.verified)
      have hRounds : before.Rounds store next moment time earlier record := ⟨hFinalizes, hReopens⟩
      obtain ⟨hExact, hRetains⟩ := hKeeps trivial
      refine ⟨fun _ _ => hRounds.acceptsRounds (hFinalizes.storesExactly_of_decided hExact)
        (hFinalizes.retainsReviews_of_decided hRetains), fun hDecided => ?_⟩
      obtain ⟨plan, entry, hOpened⟩ := hRounds.opened
      rw [hOpened.next] at hDecided
      exact absurd rfl hDecided
  | _ => exact absurd hReview id

end Store

/-- In a review whose reopenings find the kept signatures in force, on a storage
that keeps its doubles, every open round that follows a reopening is accepted by
the validation of the rounds and of the reopening history. -/
theorem reopened_rounds_accepted {base store : Store} (hBase : base.Collected)
    (hRun : Store.ReviewRun (fun store op => op.Reopens → store.StoresExactly ∧ store.RetainsReviews) base store)
    (hAwaits : store.progress.status = .awaitingReview) (hRounds : store.progress.reviewReopenings ≠ [])
    {reading : DateTime} (hReading : ∀ last ∈ store.progress.reviewReopenings.getLast?, last.reopenedAt ≤ reading) :
    ∃ context, store.gateContext = .ok context ∧ store.validateRounds context reading = .ok () := by
  have hSound : store.RoundsSound := by
    clear hAwaits hRounds hReading
    induction hRun with
    | start => exact ⟨fun _ hRounds => absurd hBase.unopened hRounds, fun hOther => absurd hBase.awaits hOther⟩
    | step _ hReview hAllowed hOp ih => exact Store.perform_roundsSound hReview hAllowed hOp ih
  obtain ⟨context, hContext, hAccepts⟩ := hSound.accepts hAwaits hRounds
  exact ⟨context, hContext, hAccepts reading hReading⟩

/-- A decision is always found again in what storage made of it. When its Run is
reopened, the ended round is accepted exactly when storage keeps every rate and
every threshold of the gates and the signatures that the round before had kept
are still in force. -/
theorem finalization_survives {store decided : Store} {expectedVersion : Nat} {actor reason : String}
    {expectedPassed confirm : Bool} {time : DateTime}
    (hFinalize : store.finalize expectedVersion actor expectedPassed reason time confirm = .ok decided) :
    (∃ snapshot, decided.verifiedFinalSnapshot = .ok snapshot) ∧
    ∀ version actor reason later confirm next, decided.reopen version actor reason later confirm = .ok next →
      ∀ reading, later ≤ reading →
        ((∃ context, next.gateContext = .ok context ∧ next.validateRounds context reading = .ok ()) ↔
          store.StoresExactly ∧ store.RetainsReviews) := by
  obtain ⟨snapshot, record, hFinalizes⟩ := Store.finalize_ok hFinalize
  refine ⟨⟨snapshot, hFinalizes.verified⟩, fun version actor reason later confirm next hReopen reading hReading => ?_⟩
  obtain ⟨again, hReopens⟩ := Store.reopen_ok hReopen
  obtain rfl : snapshot = again := Except.ok.inj (hFinalizes.verified.symm.trans hReopens.verified)
  have hRounds : store.Rounds decided next time later snapshot record := ⟨hFinalizes, hReopens⟩
  obtain ⟨context, hContext, _⟩ := hFinalizes.facts
  have hNext := hRounds.gateContext hContext
  rw [← hFinalizes.storesExactly_iff, ← hRounds.accepted_iff hContext hReading]
  constructor
  · rintro ⟨own, hOwn, hAccepted⟩
    obtain rfl : context = own := Except.ok.inj (hNext.symm.trans hOwn)
    exact hAccepted
  · exact fun hAccepted => ⟨context, hNext, hAccepted⟩

end QsAi
