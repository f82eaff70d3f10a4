import QsAi.Foundation.Keyed

/-! Selection of the one row of highest rank. In a keyed table whose keys all
lie on a chain of strictly falling rank, the selection is never ambiguous and
finds the first key of the chain that has a row. -/
namespace MostSpecific

open Keyed

variable {α κ ε : Type}

/-- The only row of highest rank, nothing in an empty table, and a refusal when
several rows share the highest rank. -/
def select (rank : α → Nat) (ambiguous : ε) : List α → Except ε (Option α)
  | [] => .ok none
  | first :: rest =>
      let highest := (rest.map rank).foldl max (rank first)
      match (first :: rest).filter fun row => rank row = highest with
      | [row] => .ok (some row)
      | _ => .error ambiguous

theorem foldl_max_le {ranks : List Nat} {start bound : Nat} :
    ranks.foldl max start ≤ bound ↔ start ≤ bound ∧ ∀ rank ∈ ranks, rank ≤ bound := by
  induction ranks generalizing start with
  | nil => simp
  | cons rank ranks ih =>
      rw [List.foldl_cons, ih, Nat.max_le, List.forall_mem_cons, and_assoc]

/-- The highest rank is the rank of a row that no row outranks. -/
theorem highest_eq {rank : α → Nat} {first row : α} {rest : List α} (hMem : row ∈ first :: rest)
    (hHighest : ∀ other ∈ first :: rest, rank other ≤ rank row) :
    (rest.map rank).foldl max (rank first) = rank row := by
  apply Nat.le_antisymm
  · rw [foldl_max_le]
    exact ⟨hHighest first (by simp), by simpa using fun other h => hHighest other (by simp [h])⟩
  · obtain ⟨hFirst, hRest⟩ := foldl_max_le.mp (Nat.le_refl ((rest.map rank).foldl max (rank first)))
    rcases List.mem_cons.mp hMem with rfl | hMem
    · exact hFirst
    · exact hRest _ (List.mem_map_of_mem hMem)

theorem select_unique {rank : α → Nat} {ambiguous : ε} {rows : List α} {row : α} (hMem : row ∈ rows)
    (hHighest : ∀ other ∈ rows, rank other ≤ rank row)
    (hAlone : rows.filter (fun other => rank other = rank row) = [row]) :
    select rank ambiguous rows = .ok (some row) := by
  cases rows with
  | nil => cases hMem
  | cons first rest =>
      simp only [select, highest_eq hMem hHighest, hAlone]

variable [DecidableEq κ]

/-- The row of highest rank is the row of the first key of the chain. -/
theorem select_chain {rank : κ → Nat} {key : α → κ} {ambiguous : ε} {rows : List α} {chain : List κ}
    (hUnique : UniqueOn key rows) (hChain : chain.Pairwise fun first later => rank later < rank first)
    (hKeys : ∀ row ∈ rows, key row ∈ chain) :
    select (rank ∘ key) ambiguous rows = .ok (chain.findSome? (lookup key rows)) := by
  induction chain with
  | nil =>
      cases rows with
      | nil => rfl
      | cons row rows => exact absurd (hKeys row (by simp)) List.not_mem_nil
  | cons k chain ih =>
      obtain ⟨hBelow, hChain⟩ := List.pairwise_cons.mp hChain
      cases hFind : lookup key rows k with
      | some row =>
          obtain ⟨hMem, hKey⟩ := lookup_some hFind
          have hHighest : ∀ other ∈ rows, rank (key other) ≤ rank (key row) := by
            intro other hOther
            rw [hKey]
            rcases List.mem_cons.mp (hKeys other hOther) with hSame | hLater
            · exact Nat.le_of_eq (congrArg rank hSame)
            · exact Nat.le_of_lt (hBelow _ hLater)
          have hAlone : rows.filter (fun other => (rank ∘ key) other = (rank ∘ key) row) = [row] := by
            apply hUnique.filter_eq_singleton hMem (by simp)
            intro other hOther hRank
            rcases List.mem_cons.mp (hKeys other hOther) with hSame | hLater
            · rw [hSame, hKey]
            · have hLess := hBelow _ hLater
              simp only [Function.comp_apply, hKey, decide_eq_true_eq] at hRank
              omega
          rw [List.findSome?_cons, hFind]
          exact select_unique hMem hHighest hAlone
      | none =>
          rw [List.findSome?_cons, hFind]
          apply ih hChain
          intro row hRow
          rcases List.mem_cons.mp (hKeys row hRow) with hSame | hLater
          · exact absurd hSame (lookup_eq_none.mp hFind row hRow)
          · exact hLater

/-- A chain that may repeat a key falls strictly without the repetitions. -/
theorem falling_eraseDups {rank : κ → Nat} {chain : List κ}
    (h : chain.Pairwise fun first later => first = later ∨ rank later < rank first) :
    chain.eraseDups.Pairwise fun first later => rank later < rank first := by
  match chain with
  | [] => exact List.Pairwise.nil
  | first :: rest =>
      obtain ⟨hFirst, hRest⟩ := List.pairwise_cons.mp h
      have hShorter : (rest.filter fun later => !later == first).length < rest.length + 1 :=
        Nat.lt_succ_of_le (List.length_filter_le _ rest)
      rw [List.eraseDups_cons, List.pairwise_cons]
      constructor
      · intro later hLater
        rw [List.mem_eraseDups, List.mem_filter] at hLater
        exact (hFirst later hLater.1).resolve_left fun hSame => by simp [hSame] at hLater
      · exact falling_eraseDups (hRest.sublist List.filter_sublist)
termination_by chain.length

end MostSpecific
