import QsAi.Evaluation.Review

/-! Accepted signatures. Whether a history is accepted depends on each of its
signatures and on their roles and reviewers being different, not on their order
or on the batches they came in. -/
namespace QsAi

open Guarded Keyed

/-- Nobody signs a candidate twice. -/
def CandidateHumanReview.signer (review : CandidateHumanReview) : String × String :=
  (review.candidateId, review.reviewer)

/-- The evidence admits the signature by itself. -/
def Admissible (closedAt : DateTime) (candidates : List ReviewCandidate) (gatePolicyVersion : String)
    (review : CandidateHumanReview) : Prop :=
  ∃ candidate, lookup (·.candidateId) candidates review.candidateId = some candidate ∧
    closedAt ≤ review.reviewedAt ∧ validateSemanticReview review candidate gatePolicyVersion = .ok ()

/-- A history whose signatures are admitted, one for each role and reviewer. -/
structure Accountable (closedAt : DateTime) (candidates : List ReviewCandidate) (gatePolicyVersion : String)
    (reviews : List CandidateHumanReview) : Prop where
  admissible : ∀ review ∈ reviews, Admissible closedAt candidates gatePolicyVersion review
  roles : UniqueOn CandidateHumanReview.key reviews
  signers : UniqueOn CandidateHumanReview.signer reviews

section

variable {closedAt : DateTime} {candidates : List ReviewCandidate} {policy : String}
  {reviews seen : List CandidateHumanReview}

theorem checkReviews_iff : checkReviews closedAt candidates policy seen reviews = .ok () ↔
    Accountable closedAt candidates policy reviews ∧
    ∀ review ∈ reviews, review.key ∉ seen.map (·.key) ∧ review.signer ∉ seen.map (·.signer) := by
  induction reviews generalizing seen with
  | nil =>
      refine ⟨fun _ => ⟨⟨?_, uniqueOn_nil _, uniqueOn_nil _⟩, ?_⟩, fun _ => rfl⟩
      · exact fun review hReview => absurd hReview List.not_mem_nil
      · exact fun review hReview => absurd hReview List.not_mem_nil
  | cons review rest ih =>
      simp only [checkReviews, bind_ok, demand_ok, require_ok, exists_const]
      constructor
      · rintro ⟨candidate, hCandidate, hTime, hNew, _, hContest, hRest⟩
        obtain ⟨hAccountable, hFresh⟩ := ih.mp hRest
        refine ⟨⟨?_, ?_, ?_⟩, ?_⟩
        · exact List.forall_mem_cons.mpr ⟨⟨candidate, hCandidate, hTime, hContest⟩, hAccountable.admissible⟩
        · refine uniqueOn_cons.mpr ⟨fun hMem => ?_, hAccountable.roles⟩
          obtain ⟨other, hOther, hKey⟩ := List.mem_map.mp hMem
          exact (hFresh other hOther).1 (by rw [hKey]; exact List.mem_cons_self)
        · refine uniqueOn_cons.mpr ⟨fun hMem => ?_, hAccountable.signers⟩
          obtain ⟨other, hOther, hSigner⟩ := List.mem_map.mp hMem
          exact (hFresh other hOther).2 (by rw [hSigner]; exact List.mem_cons_self)
        · refine List.forall_mem_cons.mpr ⟨hNew, fun other hOther => ?_⟩
          obtain ⟨hKey, hSigner⟩ := hFresh other hOther
          exact ⟨fun h => hKey (List.mem_cons_of_mem _ h), fun h => hSigner (List.mem_cons_of_mem _ h)⟩
      · rintro ⟨⟨hAdmissible, hRoles, hSigners⟩, hFresh⟩
        obtain ⟨⟨candidate, hCandidate, hTime, hContest⟩, hOthers⟩ := List.forall_mem_cons.mp hAdmissible
        obtain ⟨hRole, hRoles⟩ := uniqueOn_cons.mp hRoles
        obtain ⟨hSigner, hSigners⟩ := uniqueOn_cons.mp hSigners
        obtain ⟨hNew, hRest⟩ := List.forall_mem_cons.mp hFresh
        refine ⟨candidate, hCandidate, hTime, hNew, (), hContest, ih.mpr ⟨⟨hOthers, hRoles, hSigners⟩, ?_⟩⟩
        intro other hOther
        obtain ⟨hKey, hOtherSigner⟩ := hRest other hOther
        rw [List.map_cons, List.map_cons, List.mem_cons, List.mem_cons]
        refine ⟨?_, ?_⟩
        · rintro (hSame | hOld)
          · exact hRole (hSame ▸ List.mem_map_of_mem hOther)
          · exact hKey hOld
        · rintro (hSame | hOld)
          · exact hSigner (hSame ▸ List.mem_map_of_mem hOther)
          · exact hOtherSigner hOld

theorem addHumanReviews_iff {status : RunStatus} {prior values result : List CandidateHumanReview} :
    addHumanReviews status closedAt candidates prior values policy = .ok result ↔
      (status = .awaitingReview ∧ candidates ≠ [] ∧ values ≠ []) ∧
      (UniqueOn (·.candidateId) candidates ∧ ∀ c ∈ candidates, c.semantic.finishedAt ≤ closedAt) ∧
      Accountable closedAt candidates policy (prior ++ values) ∧ prior ++ values = result := by
  simp only [addHumanReviews, bind_ok, require_ok, exists_const, pure_ok]
  constructor
  · rintro ⟨hBatch, hCandidates, _, hCheck, hResult⟩
    exact ⟨hBatch, hCandidates, (checkReviews_iff.mp hCheck).1, hResult⟩
  · rintro ⟨hBatch, hCandidates, hAccountable, hResult⟩
    exact ⟨hBatch, hCandidates, (), checkReviews_iff.mpr ⟨hAccountable, fun _ _ => by simp⟩, hResult⟩

namespace Accountable

theorem sublist (h : Accountable closedAt candidates policy reviews) {part : List CandidateHumanReview}
    (hPart : part.Sublist reviews) : Accountable closedAt candidates policy part where
  admissible review hReview := h.admissible review (hPart.subset hReview)
  roles := h.roles.sublist hPart
  signers := h.signers.sublist hPart

/-- Neither the order of the candidates nor that of the signatures matters. -/
theorem perm (h : Accountable closedAt candidates policy reviews) (hUnique : UniqueOn (·.candidateId) candidates)
    {others : List ReviewCandidate} (hCandidates : candidates.Perm others) {again : List CandidateHumanReview}
    (hReviews : reviews.Perm again) : Accountable closedAt others policy again where
  admissible review hReview := by
    obtain ⟨candidate, hCandidate, hRest⟩ := h.admissible review (hReviews.mem_iff.mpr hReview)
    exact ⟨candidate, (lookup_perm hUnique hCandidates _).symm.trans hCandidate, hRest⟩
  roles := h.roles.perm hReviews
  signers := h.signers.perm hReviews

/-- The signatures of one candidate are accepted for it alone. -/
theorem own (h : Accountable closedAt candidates policy reviews) {candidate : ReviewCandidate}
    (hUnique : UniqueOn (·.candidateId) candidates) (hCandidate : candidate ∈ candidates) :
    Accountable closedAt [candidate] policy (reviews.filter (·.candidateId = candidate.candidateId)) where
  admissible review hReview := by
    obtain ⟨hMem, hOwn⟩ := List.mem_filter.mp hReview
    have hId : review.candidateId = candidate.candidateId := of_decide_eq_true hOwn
    obtain ⟨found, hFound, hRest⟩ := h.admissible review hMem
    obtain ⟨hFoundMem, hFoundId⟩ := lookup_some hFound
    obtain rfl : found = candidate := hUnique.eq_of_key hFoundMem hCandidate (hFoundId.trans hId)
    refine ⟨found, ?_, hRest⟩
    simp [lookup, hId]
  roles := h.roles.sublist List.filter_sublist
  signers := h.signers.sublist List.filter_sublist

end Accountable

theorem addHumanReviews_own {candidate : ReviewCandidate} (hUnique : UniqueOn (·.candidateId) candidates)
    (hCandidate : candidate ∈ candidates) (hFinished : candidate.semantic.finishedAt ≤ closedAt)
    (h : Accountable closedAt candidates policy reviews)
    (hSome : reviews.filter (·.candidateId = candidate.candidateId) ≠ []) :
    addHumanReviews .awaitingReview closedAt [candidate] [] (reviews.filter (·.candidateId = candidate.candidateId))
      policy = .ok (reviews.filter (·.candidateId = candidate.candidateId)) := by
  refine addHumanReviews_iff.mpr ⟨⟨rfl, by simp, hSome⟩, ⟨?_, ?_⟩, h.own hUnique hCandidate, rfl⟩
  · exact uniqueOn_cons.mpr ⟨List.not_mem_nil, uniqueOn_nil _⟩
  · intro other hOther
    rw [List.mem_singleton.mp hOther]
    exact hFinished

end

end QsAi
