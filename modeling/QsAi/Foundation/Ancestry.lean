import Mathlib.Data.List.Nodup
import Mathlib.Logic.Relation

/-! Chains of parents. Every member names at most one parent, which need not be a
member itself; a chain ends where no parent is named, or it runs into a cycle. A
climb along a chain that remembers what it has seen always ends. -/
namespace Ancestry

open Relation

variable {α : Type} (parent : α → Option α)

/-- The second is named as the parent of the first. -/
def Above (child above : α) : Prop := parent child = some above

/-- The second is reached from the first by naming parents, at least once. -/
def Ancestor (child above : α) : Prop := TransGen (Above parent) child above

/-- The chain that starts here comes to a member of a cycle. -/
def RunsIntoCycle (start : α) : Prop := ∃ member, ReflTransGen (Above parent) start member ∧ Ancestor parent member member

variable {parent}

/-- There is only one way up. -/
theorem Above.unique {child a b : α} (ha : Above parent child a) (hb : Above parent child b) : a = b :=
  Option.some.inj (ha.symm.trans hb)

/-- Every proper ancestor lies at or above the named parent. -/
theorem Ancestor.through {child above named : α} (h : Ancestor parent child above) (hNamed : Above parent child named) :
    ReflTransGen (Above parent) named above := by
  obtain ⟨next, hNext, hRest⟩ := TransGen.head'_iff.mp h
  rw [hNext.unique hNamed] at hRest
  exact hRest

/-- Where no parent is named there is no ancestor. -/
theorem not_ancestor_of_none {child above : α} (h : parent child = none) : ¬ Ancestor parent child above := by
  intro hAncestor
  obtain ⟨next, hNext, -⟩ := TransGen.head'_iff.mp hAncestor
  rw [Above, h] at hNext
  cases hNext

theorem runsIntoCycle_iff_parent {child named : α} (hNamed : Above parent child named) :
    RunsIntoCycle parent child ↔ RunsIntoCycle parent named := by
  constructor
  · rintro ⟨member, hReach, hCycle⟩
    rcases ReflTransGen.cases_head hReach with rfl | ⟨next, hNext, hRest⟩
    · exact ⟨_, Ancestor.through hCycle hNamed, hCycle⟩
    · rw [hNext.unique hNamed] at hRest
      exact ⟨member, hRest, hCycle⟩
  · rintro ⟨member, hReach, hCycle⟩
    exact ⟨member, ReflTransGen.head hNamed hReach, hCycle⟩

theorem not_runsIntoCycle_of_none {child : α} (h : parent child = none) : ¬ RunsIntoCycle parent child := by
  rintro ⟨member, hReach, hCycle⟩
  rcases ReflTransGen.cases_head hReach with rfl | ⟨next, hNext, -⟩
  · exact not_ancestor_of_none h hCycle
  · rw [Above, h] at hNext
    cases hNext

section Climb

variable [DecidableEq α]

/-- How a climb ends: at the top, at something it has seen before, or at a member
of the given list. -/
inductive Ending
  | top
  | seen
  | met
deriving DecidableEq, Repr

/-- Climb for at most so many rounds. -/
def climb (parent : α → Option α) (stops : List α) : Nat → List α → Option α → Option Ending
  | _, _, none => some .top
  | 0, _, some _ => none
  | rounds + 1, seen, some above =>
      if above ∈ seen then some .seen
      else if above ∈ stops then some .met
      else climb parent stops rounds (above :: seen) (parent above)

variable {stops : List α}

/-- More rounds change nothing. -/
theorem climb_mono {rounds more : Nat} {seen : List α} {next : Option α} {ending : Ending}
    (h : climb parent stops rounds seen next = some ending) (hMore : rounds ≤ more) :
    climb parent stops more seen next = some ending := by
  induction rounds generalizing more seen next with
  | zero =>
      cases next with
      | none => cases more <;> exact h
      | some above => cases h
  | succ rounds ih =>
      cases next with
      | none => cases more <;> exact h
      | some above =>
          obtain ⟨more, rfl⟩ : ∃ less, more = less + 1 := ⟨more - 1, by omega⟩
          rw [climb] at h ⊢
          split at h
          · rename_i hSeen
            rw [if_pos hSeen]
            exact h
          · rename_i hSeen
            rw [if_neg hSeen]
            split at h
            · rename_i hMet
              rw [if_pos hMet]
              exact h
            · rename_i hMet
              rw [if_neg hMet]
              exact ih h (by omega)

/-- Only members name parents, so a climb ends within as many rounds as there are
members it has not seen, and one more. -/
theorem climb_ends {members : List α} (hMembers : ∀ child, parent child ≠ none → child ∈ members) {rounds : Nat}
    {seen : List α} {next : Option α} (hRounds : (members.filter (· ∉ seen)).length + 1 ≤ rounds) :
    ∃ ending, climb parent stops rounds seen next = some ending := by
  induction rounds generalizing seen next with
  | zero => omega
  | succ rounds ih =>
      cases next with
      | none => exact ⟨.top, rfl⟩
      | some above =>
          rw [climb]
          split
          · exact ⟨.seen, rfl⟩
          rename_i hSeen
          split
          · exact ⟨.met, rfl⟩
          by_cases hMember : above ∈ members
          · apply ih
            have hFewer : (members.filter (· ∉ above :: seen)).length < (members.filter (· ∉ seen)).length := by
              have hSub : members.filter (· ∉ above :: seen) = (members.filter (· ∉ seen)).filter (· ≠ above) := by
                rw [List.filter_filter]
                congr 1
                funext x
                simp [not_or]
              rw [hSub]
              apply List.length_filter_lt_length_iff_exists.mpr
              exact ⟨above, List.mem_filter.mpr ⟨hMember, by simpa using hSeen⟩, by simp⟩
            omega
          · have hNone : parent above = none := by
              by_contra hSome
              exact hMember (hMembers above hSome)
            rw [hNone]
            cases rounds <;> exact ⟨.top, rfl⟩

/-- A climb that reached the top met nothing on its way. -/
theorem climb_top {rounds : Nat} {seen : List α} {next : Option α}
    (h : climb parent stops rounds seen next = some .top) :
    (∀ above, next = some above → ¬ RunsIntoCycle parent above ∧
      ∀ higher, ReflTransGen (Above parent) above higher → higher ∉ stops) := by
  induction rounds generalizing seen next with
  | zero =>
      cases next with
      | none => intro above hAbove; cases hAbove
      | some above => cases h
  | succ rounds ih =>
      rintro above rfl
      rw [climb] at h
      split at h
      · cases h
      split at h
      · cases h
      rename_i hStops
      cases hParent : parent above with
      | none =>
          refine ⟨not_runsIntoCycle_of_none hParent, fun higher hReach => ?_⟩
          rcases ReflTransGen.cases_head hReach with rfl | ⟨next, hNext, -⟩
          · exact hStops
          · rw [Above, hParent] at hNext
            cases hNext
      | some named =>
          rw [hParent] at h
          obtain ⟨hCycle, hHigher⟩ := ih h named rfl
          refine ⟨fun hRuns => hCycle ((runsIntoCycle_iff_parent hParent).mp hRuns), fun higher hReach => ?_⟩
          rcases ReflTransGen.cases_head hReach with rfl | ⟨next, hNext, hRest⟩
          · exact hStops
          · rw [Above.unique hNext hParent] at hRest
            exact hHigher higher hRest

/-- What the climb has seen leads to where it stands. -/
theorem climb_blocked {rounds : Nat} {seen : List α} {next : Option α} {start : α} {ending : Ending}
    (h : climb parent stops rounds seen next = some ending)
    (hSeen : ∀ above, next = some above → (∀ x ∈ seen, Ancestor parent x above) ∧ Ancestor parent start above) :
    (ending = .seen → RunsIntoCycle parent start) ∧
    (ending = .met → ∃ above ∈ stops, above ∉ seen ∧ Ancestor parent start above) := by
  induction rounds generalizing seen next with
  | zero =>
      cases next with
      | none =>
          cases h
          exact ⟨nofun, nofun⟩
      | some above => cases h
  | succ rounds ih =>
      cases next with
      | none =>
          cases h
          exact ⟨nofun, nofun⟩
      | some above =>
          obtain ⟨hBelow, hStart⟩ := hSeen above rfl
          rw [climb] at h
          split at h
          · rename_i hMem
            cases h
            exact ⟨fun _ => ⟨above, hStart.to_reflTransGen, hBelow above hMem⟩, nofun⟩
          rename_i hNew
          split at h
          · rename_i hMem
            cases h
            exact ⟨nofun, fun _ => ⟨above, hMem, hNew, hStart⟩⟩
          · have hNext : ∀ higher, parent above = some higher →
                (∀ x ∈ above :: seen, Ancestor parent x higher) ∧ Ancestor parent start higher := by
              intro higher hHigher
              refine ⟨List.forall_mem_cons.mpr ⟨TransGen.single hHigher, ?_⟩, hStart.tail hHigher⟩
              exact fun x hx => (hBelow x hx).tail hHigher
            obtain ⟨hCycle, hMet⟩ := ih h hNext
            refine ⟨hCycle, fun hEnding => ?_⟩
            obtain ⟨met, hMem, hFresh, hReach⟩ := hMet hEnding
            exact ⟨met, hMem, fun hOld => hFresh (List.mem_cons_of_mem _ hOld), hReach⟩

/-- A climb from a member reaches the top exactly when no other stop lies above
it and its chain runs into no cycle. -/
theorem climb_top_iff {rounds : Nat} {start : α} (hEnds : ∃ ending, climb parent stops rounds [start] (parent start) = some ending) :
    climb parent stops rounds [start] (parent start) = some .top ↔
      (∀ above ∈ stops, above ≠ start → ¬ Ancestor parent start above) ∧ ¬ RunsIntoCycle parent start := by
  constructor
  · intro h
    cases hParent : parent start with
    | none => exact ⟨fun above _ _ => not_ancestor_of_none hParent, not_runsIntoCycle_of_none hParent⟩
    | some named =>
        rw [hParent] at h
        obtain ⟨hCycle, hHigher⟩ := climb_top h named rfl
        refine ⟨fun above hMem _ hAncestor => ?_, fun hRuns => hCycle ((runsIntoCycle_iff_parent hParent).mp hRuns)⟩
        exact hHigher above (hAncestor.through hParent) hMem
  · rintro ⟨hOthers, hCycle⟩
    obtain ⟨ending, h⟩ := hEnds
    have hStart : ∀ above, parent start = some above → (∀ x ∈ [start], Ancestor parent x above) ∧ Ancestor parent start above := by
      intro above hAbove
      exact ⟨fun x hx => List.mem_singleton.mp hx ▸ TransGen.single hAbove, TransGen.single hAbove⟩
    obtain ⟨hSeen, hMet⟩ := climb_blocked h hStart
    cases ending with
    | top => exact h
    | seen => exact absurd (hSeen rfl) hCycle
    | met =>
        obtain ⟨above, hMem, hFresh, hReach⟩ := hMet rfl
        exact absurd hReach (hOthers above hMem (by simpa using hFresh))

end Climb

end Ancestry
