import QsAi.Evaluation.Review

/-! Corrections of signatures. A signature is never edited: its reviewer adds an
entry that names the signature it replaces, and the current signatures are
derived again from the originals and the whole chain of entries. -/
namespace QsAi

open Guarded Keyed

/-- A UUID in its canonical spelling, other than the nil one. -/
def validUuid (value : String) : Bool :=
  let groups := (value.toList.splitOn '-').map (·.length)
  let digits := value.toList.filter (· ≠ '-')
  groups == [8, 4, 4, 4, 12] && digits.all (fun c => c.isDigit || ('a' ≤ c && c ≤ 'f')) && digits.any (· ≠ '0')

/-- One correction: the signature it replaces and the one it puts in its place. -/
structure CorrectionFields where
  commandId : String
  sourceVersion : Nat
  version : Nat
  previousReviewFingerprint : String
  candidateOutputFingerprint : String
  previousReview : CandidateHumanReview
  review : CandidateHumanReview
deriving DecidableEq

/-- The audit of a correction. -/
def CorrectionFields.check (f : CorrectionFields) : Except Rejection Unit :=
  require (validUuid f.commandId = true ∧ 1 ≤ f.sourceVersion ∧ f.version = f.sourceVersion + 1 ∧
      validFingerprint f.candidateOutputFingerprint = true ∧
      (f.review.candidateId = f.previousReview.candidateId ∧ f.review.role = f.previousReview.role ∧
        f.review.reviewer = f.previousReview.reviewer) ∧
      f.previousReview.reviewedAt ≤ f.review.reviewedAt ∧ f.review.semanticReview = none ∧
      f.previousReview.semanticReview = none)
    (.invalid "Invalid review correction audit")

structure ReviewCorrection extends CorrectionFields where
  checked : toCorrectionFields.check = .ok ()
deriving DecidableEq

namespace ReviewCorrection

/-- The function that fingerprints signatures gives the name of the replaced
one. -/
def make (fingerprint : CandidateHumanReview → String) (fields : CorrectionFields) :
    Except Rejection ReviewCorrection := do
  require (fields.previousReviewFingerprint = fingerprint fields.previousReview)
    (.invalid "Invalid review correction audit")
  certify fields.check fun h => ⟨fields, h⟩

theorem make_ok {fingerprint : CandidateHumanReview → String} {fields : CorrectionFields}
    {entry : ReviewCorrection} (h : make fingerprint fields = .ok entry) :
    entry.toCorrectionFields = fields ∧ fields.previousReviewFingerprint = fingerprint fields.previousReview := by
  simp only [make, bind_ok, require_ok, exists_const] at h
  obtain ⟨hNamed, hMake⟩ := h
  obtain ⟨_, rfl⟩ := (certify_ok _ _ _).mp hMake
  exact ⟨rfl, hNamed⟩

theorem make_self {fingerprint : CandidateHumanReview → String} (entry : ReviewCorrection)
    (hNamed : entry.previousReviewFingerprint = fingerprint entry.previousReview) :
    make fingerprint entry.toCorrectionFields = .ok entry := by
  rw [make, require_bind_pos hNamed]
  exact (certify_ok _ _ _).mpr ⟨entry.checked, rfl⟩

/-- A correction replaces the signature of the same role, by the same reviewer,
no earlier. -/
theorem facts (correction : ReviewCorrection) :
    correction.review.key = correction.previousReview.key ∧
    correction.review.reviewer = correction.previousReview.reviewer ∧
    correction.previousReview.reviewedAt ≤ correction.review.reviewedAt ∧
    correction.version = correction.sourceVersion + 1 := by
  obtain ⟨_, _, hVersion, _, ⟨hCandidate, hRole, hReviewer⟩, hTime, _⟩ := (require_ok _ _ _).mp correction.checked
  refine ⟨?_, hReviewer, hTime, hVersion⟩
  rw [CandidateHumanReview.key, CandidateHumanReview.key, hCandidate, hRole]

end ReviewCorrection

/-- Stored corrections are checked again when they are read. -/
def decodeCorrections (fingerprint : CandidateHumanReview → String) (corrections : List ReviewCorrection) :
    Except Rejection (List ReviewCorrection) :=
  corrections.mapM fun c => ReviewCorrection.make fingerprint c.toCorrectionFields

/-- What is decoded are the stored entries themselves. -/
theorem decodeCorrections_ok {fingerprint : CandidateHumanReview → String} {corrections result : List ReviewCorrection} :
    decodeCorrections fingerprint corrections = .ok result ↔
      result = corrections ∧ ∀ c ∈ corrections, c.previousReviewFingerprint = fingerprint c.previousReview := by
  induction corrections generalizing result with
  | nil => simp [decodeCorrections, pure, Except.pure, eq_comm]
  | cons entry rest ih =>
      rw [decodeCorrections, List.mapM_cons, List.forall_mem_cons]
      constructor
      · intro h
        simp only [bind_ok, pure_ok] at h
        obtain ⟨first, hFirst, others, hOthers, rfl⟩ := h
        obtain ⟨hFields, hNamed⟩ := ReviewCorrection.make_ok hFirst
        obtain ⟨rfl, hRest⟩ := ih.mp hOthers
        have hEntry : first = entry := by
          cases first
          cases entry
          cases hFields
          rfl
        rw [hEntry]
        exact ⟨rfl, hNamed, hRest⟩
      · rintro ⟨rfl, hNamed, hRest⟩
        have hOthers := ih.mpr ⟨rfl, hRest⟩
        rw [ReviewCorrection.make_self entry hNamed, ok_bind]
        rw [decodeCorrections] at hOthers
        rw [hOthers]
        rfl

/-- Put a signature in the place of the one under its key. -/
def replaceReview (reviews : List CandidateHumanReview) (review : CandidateHumanReview) : List CandidateHumanReview :=
  reviews.map fun r => if r.key = review.key then review else r

/-- The only signature under the key is the one that the entry replaces. -/
def replaces (reviews : List CandidateHumanReview) (entry : ReviewCorrection) : Bool :=
  match reviews.filter (·.key = entry.review.key) with
  | [only] => only.Same entry.previousReview
  | _ => false

/-- Apply the entries in order. Commands are new, versions do not go back, and a
signature is corrected three times at most. -/
def applyCorrections (version : Nat) : List ReviewCorrection → List CandidateHumanReview →
    List ReviewCorrection → Except Rejection (List CandidateHumanReview)
  | _, reviews, [] => pure reviews
  | prior, reviews, entry :: rest => do
      require (replaces reviews entry = true ∧ entry.commandId ∉ prior.map (·.commandId) ∧
          (∀ last ∈ prior.getLast?, last.version ≤ entry.sourceVersion) ∧ entry.version ≤ version)
        (.invalid "Review correction chain differs from original signatures")
      require ((prior.filter (·.review.key = entry.review.key)).length < 3) (.invalid "Review correction limit reached")
      applyCorrections version (prior ++ [entry]) (replaceReview reviews entry.review) rest

/-- The current signatures. -/
def effectiveReviews (original : List CandidateHumanReview) (corrections : List ReviewCorrection)
    (version : Nat) : Except Rejection (List CandidateHumanReview) := do
  require (corrections.length ≤ 210) (.invalid "Review corrections exceed audit bound")
  applyCorrections version [] original corrections

/-- Every entry is bound to its candidate, and the signatures after each of them
are valid. -/
def checkCorrections (original : List CandidateHumanReview) (candidates : List ReviewCandidate)
    (closedAt : DateTime) (version : Nat) (limit : DateTime) (gatePolicyVersion : String) :
    List ReviewCorrection → List ReviewCorrection → Except Rejection Unit
  | _, [] => pure ()
  | prior, entry :: rest => do
      let candidate ← demand (dict (·.candidateId) candidates entry.review.candidateId)
        (.invalid "Review correction does not bind frozen candidate evidence")
      require (entry.candidateOutputFingerprint = candidate.semantic.candidateOutputFingerprint ∧
          entry.review.reviewedAt ≤ limit)
        (.invalid "Review correction does not bind frozen candidate evidence")
      let values ← effectiveReviews original (prior ++ [entry]) version
      let _ ← addHumanReviews .awaitingReview closedAt candidates [] values gatePolicyVersion
      checkCorrections original candidates closedAt version limit gatePolicyVersion (prior ++ [entry]) rest

/-- The current signatures, after the originals and every correction were
checked against the evidence. -/
def validateCorrections (original : List CandidateHumanReview) (corrections : List ReviewCorrection)
    (candidates : List ReviewCandidate) (closedAt : DateTime) (version : Nat) (limit : DateTime)
    (gatePolicyVersion : String) : Except Rejection (List CandidateHumanReview) := do
  if original ≠ [] then
    let _ ← addHumanReviews .awaitingReview closedAt candidates [] original gatePolicyVersion
  checkCorrections original candidates closedAt version limit gatePolicyVersion [] corrections
  effectiveReviews original corrections version

theorem validateCorrections_ok {original result : List CandidateHumanReview} {corrections : List ReviewCorrection}
    {candidates : List ReviewCandidate} {closedAt limit : DateTime} {version : Nat} {policy : String}
    (h : validateCorrections original corrections candidates closedAt version limit policy = .ok result) :
    (original ≠ [] → ∃ reviews,
      addHumanReviews .awaitingReview closedAt candidates [] original policy = .ok reviews) ∧
    checkCorrections original candidates closedAt version limit policy [] corrections = .ok () ∧
    effectiveReviews original corrections version = .ok result := by
  unfold validateCorrections at h
  split at h
  · simp only [bind_ok] at h
    obtain ⟨reviews, hReviews, _, hCheck, hEffective⟩ := h
    exact ⟨fun _ => ⟨reviews, hReviews⟩, hCheck, hEffective⟩
  · rename_i hNone
    simp only [bind_ok] at h
    obtain ⟨_, hCheck, hEffective⟩ := h
    exact ⟨fun hSome => absurd hSome hNone, hCheck, hEffective⟩

end QsAi
