import Mathlib.Data.List.Chain
import QsAi.Evaluation.Corrections

/-! The fold of corrections. An accepted chain leaves every signature in its
place with the word of its last correction, and so does each of its prefixes. -/
namespace QsAi

open Guarded Keyed

/-- The corrections of one signature. -/
def correctionsOf (corrections : List ReviewCorrection) (key : String × ReviewRole) : List ReviewCorrection :=
  corrections.filter (·.review.key = key)

/-- What is in force in the place of a signature. -/
def currentReview (corrections : List ReviewCorrection) (review : CandidateHumanReview) : CandidateHumanReview :=
  ((correctionsOf corrections review.key).getLast?.map (·.review)).getD review

/-- A signature and the corrections in its place, in order. -/
def reviewHistory (corrections : List ReviewCorrection) (review : CandidateHumanReview) : List CandidateHumanReview :=
  review :: (correctionsOf corrections review.key).map (·.review)

theorem currentReview_getLast (corrections : List ReviewCorrection) (review : CandidateHumanReview) :
    (reviewHistory corrections review).getLast? = some (currentReview corrections review) := by
  rw [reviewHistory, currentReview, List.getLast?_cons, List.getLast?_map]

theorem currentReview_key (corrections : List ReviewCorrection) (review : CandidateHumanReview) :
    (currentReview corrections review).key = review.key := by
  unfold currentReview
  cases hLast : (correctionsOf corrections review.key).getLast? with
  | none => rfl
  | some entry => simpa using (List.mem_filter.mp (List.mem_of_getLast? hLast)).2

theorem correctionsOf_snoc (corrections : List ReviewCorrection) (entry : ReviewCorrection) (key : String × ReviewRole) :
    correctionsOf (corrections ++ [entry]) key =
      correctionsOf corrections key ++ if entry.review.key = key then [entry] else [] := by
  rw [correctionsOf, List.filter_append, List.filter_singleton, Bool.cond_decide]
  rfl

theorem currentReview_snoc (corrections : List ReviewCorrection) (entry : ReviewCorrection)
    (review : CandidateHumanReview) : currentReview (corrections ++ [entry]) review =
      if review.key = entry.review.key then entry.review else currentReview corrections review := by
  rw [currentReview, correctionsOf_snoc]
  by_cases hKey : entry.review.key = review.key
  · rw [if_pos hKey, if_pos hKey.symm, List.getLast?_concat]
    rfl
  · rw [if_neg hKey, if_neg (Ne.symm hKey), List.append_nil]
    rfl

/-- One correction puts its signature in force. -/
theorem replaceReview_current (original : List CandidateHumanReview) (corrections : List ReviewCorrection)
    (entry : ReviewCorrection) : replaceReview (original.map (currentReview corrections)) entry.review =
      original.map (currentReview (corrections ++ [entry])) := by
  rw [replaceReview, List.map_map]
  refine List.map_congr_left fun review _ => ?_
  rw [Function.comp_apply, currentReview_key, currentReview_snoc]

/-- What an accepted chain keeps: a bound for each signature, and its time. -/
structure ChainSound (original : List CandidateHumanReview) (corrections : List ReviewCorrection) : Prop where
  bounded : ∀ key, (correctionsOf corrections key).length ≤ 3
  timed : ∀ review ∈ original, (reviewHistory corrections review).IsChain (·.reviewedAt ≤ ·.reviewedAt)
  placed : ∀ entry ∈ corrections, entry.review.key ∈ original.map (·.key)

theorem ChainSound.nil (original : List CandidateHumanReview) : ChainSound original [] where
  bounded _ := by simp [correctionsOf]
  timed review _ := by simp [reviewHistory, correctionsOf]
  placed _ h := by simp at h

/-- The entry replaces the only signature in force under its key. -/
theorem replaces_ok {reviews : List CandidateHumanReview} {entry : ReviewCorrection} (h : replaces reviews entry = true) :
    (∃ review ∈ reviews, review.key = entry.review.key) ∧
    ∀ review ∈ reviews, review.key = entry.review.key → review.Same entry.previousReview := by
  unfold replaces at h
  split at h
  · next only hOnly =>
      have hMem : ∀ review, review ∈ reviews ∧ review.key = entry.review.key ↔ review = only := by
        intro review
        rw [← List.mem_singleton (a := review), ← hOnly, List.mem_filter, decide_eq_true_eq]
      have hSame : only.Same entry.previousReview := of_decide_eq_true h
      refine ⟨⟨only, (hMem only).mpr rfl⟩, fun review hReview hKey => ?_⟩
      rw [(hMem review).mp ⟨hReview, hKey⟩]
      exact hSame
  · cases h

theorem ChainSound.snoc {original : List CandidateHumanReview} {corrections : List ReviewCorrection}
    (h : ChainSound original corrections) {entry : ReviewCorrection}
    (hReplaces : replaces (original.map (currentReview corrections)) entry = true)
    (hLimit : (correctionsOf corrections entry.review.key).length < 3) : ChainSound original (corrections ++ [entry]) := by
  obtain ⟨⟨found, hFound, hFoundKey⟩, hSame⟩ := replaces_ok hReplaces
  refine ⟨fun key => ?_, fun review hReview => ?_, fun other hOther => ?_⟩
  · rw [correctionsOf_snoc, List.length_append]
    split_ifs with hKey
    · rw [← hKey, List.length_singleton]
      omega
    · exact h.bounded key
  · rw [reviewHistory, correctionsOf_snoc]
    split_ifs with hKey
    · rw [List.map_append, ← List.cons_append]
      refine List.isChain_append.mpr ⟨h.timed review hReview, List.isChain_singleton _, ?_⟩
      intro last hLast next hNext
      obtain rfl : last = currentReview corrections review :=
        Option.some.inj (hLast.symm.trans (currentReview_getLast corrections review))
      obtain rfl : entry.review = next := by simpa using hNext
      have hPrevious := hSame _ (List.mem_map_of_mem hReview) ((currentReview_key corrections review).trans hKey.symm)
      obtain ⟨_, _, hTime, _⟩ := entry.facts
      exact (Int.le_of_eq hPrevious.2.2.2.2.1).trans hTime
    · rw [List.append_nil]
      exact h.timed review hReview
  · rcases List.mem_append.mp hOther with hOld | hNew
    · exact h.placed other hOld
    · rw [List.mem_singleton.mp hNew, ← hFoundKey]
      obtain ⟨review, hReview, rfl⟩ := List.mem_map.mp hFound
      rw [currentReview_key]
      exact List.mem_map_of_mem hReview

/-- The fold from any point of the chain. -/
theorem applyCorrections_current {version : Nat} {original result : List CandidateHumanReview}
    {prior corrections : List ReviewCorrection} (hSound : ChainSound original prior)
    (h : applyCorrections version prior (original.map (currentReview prior)) corrections = .ok result) :
    result = original.map (currentReview (prior ++ corrections)) ∧ ChainSound original (prior ++ corrections) := by
  induction corrections generalizing prior with
  | nil =>
      rw [applyCorrections, pure_ok] at h
      rw [List.append_nil, h]
      exact ⟨rfl, hSound⟩
  | cons entry rest ih =>
      simp only [applyCorrections, bind_ok, require_ok, exists_const] at h
      obtain ⟨⟨hReplaces, _⟩, hLimit, hRest⟩ := h
      rw [replaceReview_current] at hRest
      have hAll := ih (hSound.snoc hReplaces hLimit) hRest
      rwa [List.append_assoc, List.singleton_append] at hAll

theorem currentReview_nil (review : CandidateHumanReview) : currentReview [] review = review := rfl

theorem effectiveReviews_current {version : Nat} {original result : List CandidateHumanReview}
    {corrections : List ReviewCorrection} (h : effectiveReviews original corrections version = .ok result) :
    result = original.map (currentReview corrections) ∧ ChainSound original corrections := by
  simp only [effectiveReviews, bind_ok, require_ok, exists_const] at h
  have hStart : original.map (currentReview []) = original := by
    rw [List.map_congr_left (fun review _ => currentReview_nil review), List.map_id']
  have hFold := h.2
  rw [← hStart] at hFold
  exact applyCorrections_current (ChainSound.nil original) hFold

/-! Parts of a chain. -/

theorem applyCorrections_append (version : Nat) (prior : List ReviewCorrection) (reviews : List CandidateHumanReview)
    (earlier later : List ReviewCorrection) : applyCorrections version prior reviews (earlier ++ later) =
      applyCorrections version prior reviews earlier >>= fun between =>
        applyCorrections version (prior ++ earlier) between later := by
  induction earlier generalizing prior reviews with
  | nil => simp [applyCorrections, pure, Except.pure]
  | cons entry rest ih =>
      simp only [List.cons_append, applyCorrections, ih, List.append_assoc, List.nil_append, bind_assoc]

theorem effectiveReviews_earlier {version : Nat} {original result : List CandidateHumanReview}
    {earlier later : List ReviewCorrection} (h : effectiveReviews original (earlier ++ later) version = .ok result) :
    ∃ between, effectiveReviews original earlier version = .ok between := by
  simp only [effectiveReviews, bind_ok, require_ok, exists_const, List.length_append, applyCorrections_append] at h ⊢
  obtain ⟨hLength, between, hEarlier, _⟩ := h
  exact ⟨between, by omega, hEarlier⟩

theorem checkCorrections_earlier {original : List CandidateHumanReview} {candidates : List ReviewCandidate}
    {closedAt limit : DateTime} {version : Nat} {policy : String} {prior earlier later : List ReviewCorrection} {done : Unit}
    (h : checkCorrections original candidates closedAt version limit policy prior (earlier ++ later) = .ok done) :
    checkCorrections original candidates closedAt version limit policy prior earlier = .ok () := by
  induction earlier generalizing prior with
  | nil => rfl
  | cons entry rest ih =>
      simp only [List.cons_append, checkCorrections, bind_ok, demand_ok, require_ok, exists_const] at h ⊢
      obtain ⟨candidate, hCandidate, hBinds, values, hValues, reviews, hReviews, hRest⟩ := h
      exact ⟨candidate, hCandidate, hBinds, values, hValues, reviews, hReviews, ih hRest⟩

theorem validateCorrections_earlier {original result : List CandidateHumanReview} {earlier later : List ReviewCorrection}
    {candidates : List ReviewCandidate} {closedAt limit : DateTime} {version : Nat} {policy : String}
    (h : validateCorrections original (earlier ++ later) candidates closedAt version limit policy = .ok result) :
    ∃ between, validateCorrections original earlier candidates closedAt version limit policy = .ok between := by
  obtain ⟨hOriginal, hCheck, hEffective⟩ := validateCorrections_ok h
  obtain ⟨between, hBetween⟩ := effectiveReviews_earlier hEffective
  refine ⟨between, ?_⟩
  unfold validateCorrections
  split
  · next hSome =>
      obtain ⟨reviews, hReviews⟩ := hOriginal hSome
      rw [hReviews, ok_bind, checkCorrections_earlier hCheck, ok_bind, hBetween]
  · rw [checkCorrections_earlier hCheck, ok_bind, hBetween]

end QsAi
