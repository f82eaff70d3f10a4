import Mathlib.Data.List.Nodup
import Mathlib.Data.List.Perm.Basic

/-! Tables with a unique key, kept as lists of rows in whatever order storage
returns them. A lookup by key does not depend on that order. -/
namespace Keyed

variable {α κ : Type}

/-- No two rows share a key. -/
def UniqueOn (key : α → κ) (rows : List α) : Prop := (rows.map key).Nodup

instance [DecidableEq κ] (key : α → κ) (rows : List α) : Decidable (UniqueOn key rows) :=
  inferInstanceAs (Decidable (List.Nodup _))

@[simp] theorem uniqueOn_nil (key : α → κ) : UniqueOn key [] := List.nodup_nil

theorem uniqueOn_cons {key : α → κ} {row : α} {rows : List α} :
    UniqueOn key (row :: rows) ↔ key row ∉ rows.map key ∧ UniqueOn key rows := by
  simp only [UniqueOn, List.map_cons, List.nodup_cons]

namespace UniqueOn

variable {key : α → κ} {rows other : List α}

theorem eq_of_key (h : UniqueOn key rows) {a b : α} (ha : a ∈ rows) (hb : b ∈ rows) (hKey : key a = key b) :
    a = b :=
  List.inj_on_of_nodup_map h ha hb hKey

theorem perm (h : UniqueOn key rows) (hPerm : rows.Perm other) : UniqueOn key other :=
  (hPerm.map key).nodup_iff.mp h

theorem sublist (h : UniqueOn key rows) (hSub : other.Sublist rows) : UniqueOn key other :=
  List.Nodup.sublist (hSub.map key) h

/-- A table is keyed when its image under the key is. -/
theorem of_map {β : Type} {key' : β → κ} {table : List β} {f : β → α} (h : UniqueOn key (table.map f))
    (hKeys : ∀ row ∈ table, key (f row) = key' row) : UniqueOn key' table := by
  unfold UniqueOn at h ⊢
  rw [List.map_map] at h
  rw [← List.map_congr_left (f := key ∘ f) (g := key') hKeys]
  exact h

/-- A change of rows that keeps their keys keeps the table keyed. -/
theorem map_of {β : Type} {key' : β → κ} {f : α → β} (h : UniqueOn key rows)
    (hKeys : ∀ row ∈ rows, key' (f row) = key row) : UniqueOn key' (rows.map f) := by
  unfold UniqueOn
  rw [List.map_map, List.map_congr_left (f := key' ∘ f) (g := key) hKeys]
  exact h

/-- Appending a row with a new key keeps the table keyed. -/
theorem snoc (h : UniqueOn key rows) {row : α} (hNew : key row ∉ rows.map key) : UniqueOn key (rows ++ [row]) := by
  unfold UniqueOn
  rw [List.map_append, List.nodup_append]
  refine ⟨h, List.nodup_singleton _, ?_⟩
  intro a ha b hb hab
  rw [List.map_singleton, List.mem_singleton] at hb
  rw [hab, hb] at ha
  exact hNew ha

theorem of_snoc {row : α} (h : UniqueOn key (rows ++ [row])) : UniqueOn key rows ∧ key row ∉ rows.map key := by
  unfold UniqueOn at h
  rw [List.map_append, List.nodup_append] at h
  refine ⟨h.1, ?_⟩
  intro hMem
  exact h.2.2 _ hMem _ (by simp) rfl

end UniqueOn

variable [DecidableEq κ]

/-- The first row with the given key. -/
def lookup (key : α → κ) (rows : List α) (k : κ) : Option α := rows.find? fun row => key row = k

variable {key : α → κ} {rows other : List α} {k : κ} {row : α}

theorem lookup_some (h : lookup key rows k = some row) : row ∈ rows ∧ key row = k := by
  refine ⟨List.mem_of_find?_eq_some h, ?_⟩
  simpa using List.find?_some h

theorem lookup_eq_none : lookup key rows k = none ↔ ∀ row ∈ rows, key row ≠ k := by
  simp [lookup, List.find?_eq_none]

/-- In a keyed table the lookup finds exactly the row with the key. -/
theorem UniqueOn.lookup_iff (h : UniqueOn key rows) : lookup key rows k = some row ↔ row ∈ rows ∧ key row = k := by
  constructor
  · exact lookup_some
  · rintro ⟨hMem, rfl⟩
    cases hFind : lookup key rows (key row) with
    | none => exact absurd rfl (lookup_eq_none.mp hFind row hMem)
    | some found =>
        obtain ⟨hFound, hKey⟩ := lookup_some hFind
        rw [h.eq_of_key hFound hMem hKey]

/-- The lookup does not depend on the order of the rows. -/
theorem lookup_perm (h : UniqueOn key rows) (hPerm : rows.Perm other) (k : κ) :
    lookup key rows k = lookup key other k := by
  cases hFind : lookup key other k with
  | none =>
      rw [lookup_eq_none] at hFind ⊢
      exact fun row hRow => hFind row (hPerm.mem_iff.mp hRow)
  | some found =>
      obtain ⟨hMem, hKey⟩ := lookup_some hFind
      exact h.lookup_iff.mpr ⟨hPerm.mem_iff.mpr hMem, hKey⟩

/-- In a part of a keyed table the lookup finds the row that belongs to the part. -/
theorem UniqueOn.lookup_filter (h : UniqueOn key rows) (p : α → Bool) (k : κ) :
    lookup key (rows.filter p) k = (lookup key rows k).filter p := by
  have hPart : UniqueOn key (rows.filter p) := h.sublist List.filter_sublist
  cases hFind : lookup key rows k with
  | none =>
      rw [lookup_eq_none] at hFind
      exact lookup_eq_none.mpr fun row hRow => hFind row (List.mem_of_mem_filter hRow)
  | some found =>
      obtain ⟨hMem, hKey⟩ := lookup_some hFind
      cases hp : p found with
      | true =>
          rw [Option.filter_some_pos hp]
          exact hPart.lookup_iff.mpr ⟨List.mem_filter.mpr ⟨hMem, hp⟩, hKey⟩
      | false =>
          rw [Option.filter_some_neg (by simp [hp]), lookup_eq_none]
          intro row hRow hSame
          rw [List.mem_filter] at hRow
          rw [h.eq_of_key hRow.1 hMem (hSame.trans hKey.symm), hp] at hRow
          exact absurd hRow.2 (by decide)

/-- A keyed table is one of its rows and the rows with other keys. -/
theorem UniqueOn.perm_cons_filter (h : UniqueOn key rows) (hMem : row ∈ rows) :
    rows.Perm (row :: rows.filter (key · ≠ key row)) := by
  induction rows with
  | nil => cases hMem
  | cons first rest ih =>
      obtain ⟨hFirst, hRest⟩ := uniqueOn_cons.mp h
      rcases List.mem_cons.mp hMem with rfl | hMem
      · have hKeep : rest.filter (key · ≠ key row) = rest := by
          rw [List.filter_eq_self]
          intro other hOther
          refine decide_eq_true fun hEq => hFirst ?_
          rw [← hEq]
          exact List.mem_map_of_mem hOther
        rw [List.filter_cons_of_neg (by simp), hKeep]
      · have hOther : key first ≠ key row := fun hEq => hFirst (hEq ▸ List.mem_map_of_mem hMem)
        rw [List.filter_cons_of_pos (by simpa using hOther)]
        exact ((ih hRest hMem).cons first).trans (List.Perm.swap row first _)

/-- A condition that singles out one key selects one row. -/
theorem UniqueOn.filter_eq_singleton (h : UniqueOn key rows) (hMem : row ∈ rows) {p : α → Bool} (hRow : p row = true)
    (hKey : ∀ other ∈ rows, p other = true → key other = key row) : rows.filter p = [row] := by
  have hPerm := (h.perm_cons_filter hMem).filter p
  rw [List.filter_cons_of_pos hRow, List.filter_filter] at hPerm
  have hNone : rows.filter (fun other => p other && decide (key other ≠ key row)) = [] := by
    rw [List.filter_eq_nil_iff]
    intro other hOther hBoth
    simp only [Bool.and_eq_true, decide_eq_true_iff] at hBoth
    exact hBoth.2 (hKey other hOther hBoth.1)
  rw [hNone] at hPerm
  exact List.perm_singleton.mp hPerm

/-- Replacing the row under a key changes nothing else. -/
theorem UniqueOn.perm_replace (h : UniqueOn key rows) (hMem : row ∈ rows) (f : α → α) :
    (rows.map fun r => if key r = key row then f r else r).Perm (f row :: rows.filter (key · ≠ key row)) := by
  refine ((h.perm_cons_filter hMem).map _).trans ?_
  rw [List.map_cons, if_pos rfl]
  refine List.Perm.cons _ ?_
  have hKeep : ∀ r ∈ rows.filter (key · ≠ key row), (if key r = key row then f r else r) = r := by
    intro r hr
    have hOther := of_decide_eq_true (List.mem_filter.mp hr).2
    exact if_neg hOther
  rw [List.map_congr_left hKeep, List.map_id'']
  exact fun _ => rfl

/-! One row replaced under its key. -/

/-- The rows with a new one in the place of the row under its key. -/
def update (key : α → κ) (rows : List α) (row : α) : List α := rows.map fun old => if key old = key row then row else old

theorem update_keys (key : α → κ) (rows : List α) (row : α) : (update key rows row).map key = rows.map key := by
  rw [update, List.map_map]
  refine List.map_congr_left fun old _ => ?_
  simp only [Function.comp_apply]
  split
  · rename_i hKey
    exact hKey.symm
  · rfl

theorem UniqueOn.update (h : UniqueOn key rows) (row : α) : UniqueOn key (update key rows row) := by
  unfold UniqueOn
  rw [update_keys]
  exact h

theorem lookup_update_self {old : α} (h : lookup key rows (key row) = some old) :
    lookup key (update key rows row) (key row) = some row := by
  induction rows with
  | nil => cases h
  | cons first rest ih =>
      by_cases hKey : key first = key row
      · simp [lookup, Keyed.update, hKey]
      · rw [lookup, List.find?_cons_of_neg (by simpa using hKey)] at h
        rw [Keyed.update, List.map_cons, if_neg hKey, lookup, List.find?_cons_of_neg (by simpa using hKey)]
        exact ih h

theorem lookup_update_other (hOther : k ≠ key row) : lookup key (update key rows row) k = lookup key rows k := by
  induction rows with
  | nil => rfl
  | cons first rest ih =>
      by_cases hKey : key first = key row
      · have hFirst : key first ≠ k := fun hEq => hOther (hEq.symm.trans hKey)
        rw [Keyed.update, List.map_cons, if_pos hKey, lookup, List.find?_cons_of_neg (by simpa using hOther.symm), lookup,
          List.find?_cons_of_neg (by simpa using hFirst)]
        exact ih
      · by_cases hHere : key first = k
        · rw [Keyed.update, List.map_cons, if_neg hKey, lookup, List.find?_cons_of_pos (by simpa using hHere), lookup,
            List.find?_cons_of_pos (by simpa using hHere)]
        · rw [Keyed.update, List.map_cons, if_neg hKey, lookup, List.find?_cons_of_neg (by simpa using hHere), lookup,
            List.find?_cons_of_neg (by simpa using hHere)]
          exact ih

theorem mem_update {other : α} (h : other ∈ update key rows row) : other = row ∨ other ∈ rows := by
  obtain ⟨old, hMem, hOld⟩ := List.mem_map.mp h
  split at hOld
  · exact .inl hOld.symm
  · exact .inr (hOld ▸ hMem)

/-- One key has one row, so leaving its row out of a count loses one at most. -/
theorem UniqueOn.countP_le (h : UniqueOn key rows) (p : α → Bool) (k : κ) :
    rows.countP p ≤ rows.countP (fun row => p row && decide (key row ≠ k)) + 1 := by
  induction rows with
  | nil => exact Nat.zero_le _
  | cons first rest ih =>
      obtain ⟨hFirst, hRest⟩ := uniqueOn_cons.mp h
      by_cases hKey : key first = k
      · have hSame : rest.countP p = rest.countP (fun row => p row && decide (key row ≠ k)) := by
          refine List.countP_congr fun row hRow => ?_
          have hOther : key row ≠ k := fun hEq =>
            hFirst (hKey.trans hEq.symm ▸ List.mem_map_of_mem hRow)
          simp [hOther]
        rw [List.countP_cons, List.countP_cons, hSame]
        split <;> split <;> omega
      · have hCount := ih hRest
        have hHead : (p first && decide (key first ≠ k)) = p first := by simp [hKey]
        rw [List.countP_cons, List.countP_cons, hHead]
        omega

/-- A count over the other keys does not see the replacement. -/
theorem countP_update_other (p : α → Bool) :
    (update key rows row).countP (fun r => p r && decide (key r ≠ key row)) =
      rows.countP (fun r => p r && decide (key r ≠ key row)) := by
  rw [update, List.countP_map]
  refine List.countP_congr fun old _ => ?_
  by_cases hKey : key old = key row <;> simp [hKey]

/-- A replacement that no longer counts where its row did not lowers a count at most. -/
theorem countP_update_le {p : α → Bool} (hRow : ∀ old ∈ rows, key old = key row → p row = true → p old = true) :
    (update key rows row).countP p ≤ rows.countP p := by
  rw [update, List.countP_map]
  refine List.countP_mono_left fun old hOld hCount => ?_
  simp only [Function.comp_apply] at hCount
  split at hCount
  · rename_i hKey
    exact hRow old hOld hKey hCount
  · exact hCount

/-- Any replacement raises a count by one at most. -/
theorem UniqueOn.countP_update (h : UniqueOn key rows) (p : α → Bool) (row : α) :
    (Keyed.update key rows row).countP p ≤ rows.countP p + 1 := by
  have hBound := (h.update row).countP_le p (key row)
  rw [countP_update_other] at hBound
  have hOthers : rows.countP (fun r => p r && decide (key r ≠ key row)) ≤ rows.countP p :=
    List.countP_mono_left fun r _ hCount => (Bool.and_eq_true _ _ ▸ hCount).1
  omega

/-- The row a dictionary built from the rows holds under the key: the last one. -/
def dict (key : α → κ) (rows : List α) (k : κ) : Option α := lookup key rows.reverse k

theorem dict_some (h : dict key rows k = some row) : row ∈ rows ∧ key row = k := by
  obtain ⟨hMem, hKey⟩ := lookup_some h
  exact ⟨List.mem_reverse.mp hMem, hKey⟩

theorem UniqueOn.dict_iff (h : UniqueOn key rows) : dict key rows k = some row ↔ row ∈ rows ∧ key row = k := by
  rw [dict, (h.perm rows.reverse_perm.symm).lookup_iff, List.mem_reverse]

/-! Rows counted by their keys. -/

theorem length_le_of_fibres (key : α → κ) {keys : List κ} {rows : List α} {bound : Nat}
    (hKeys : ∀ row ∈ rows, key row ∈ keys) (hBound : ∀ k ∈ keys, (rows.filter (key · = k)).length ≤ bound) :
    rows.length ≤ keys.length * bound := by
  induction keys generalizing rows with
  | nil =>
      rw [List.eq_nil_iff_forall_not_mem.mpr fun row hRow => List.not_mem_nil (hKeys row hRow)]
      exact Nat.zero_le _
  | cons k keys ih =>
      have hSplit := List.length_eq_length_filter_add (l := rows) (key · = k)
      have hRest : (rows.filter fun row => !decide (key row = k)).length ≤ keys.length * bound := by
        refine ih ?_ ?_
        · intro row hRow
          obtain ⟨hMem, hOther⟩ := List.mem_filter.mp hRow
          exact (List.mem_cons.mp (hKeys row hMem)).resolve_left (by simpa using hOther)
        · intro other hOther
          rw [List.filter_comm]
          exact Nat.le_trans (List.length_filter_le _ _) (hBound other (List.mem_cons_of_mem _ hOther))
      have hFirst := hBound k List.mem_cons_self
      rw [List.length_cons, Nat.succ_mul]
      omega

/-- When one fibre is not full, the table is not full. -/
theorem length_lt_of_fibres (key : α → κ) {keys : List κ} {rows : List α} {bound : Nat}
    (hKeys : ∀ row ∈ rows, key row ∈ keys) (hBound : ∀ k ∈ keys, (rows.filter (key · = k)).length ≤ bound)
    (hMem : k ∈ keys) (hOpen : (rows.filter (key · = k)).length < bound) : rows.length < keys.length * bound := by
  have hSplit := List.length_eq_length_filter_add (l := rows) (key · = k)
  have hRest : (rows.filter fun row => !decide (key row = k)).length ≤ (keys.erase k).length * bound := by
    refine length_le_of_fibres key ?_ ?_
    · intro row hRow
      obtain ⟨hRow, hOther⟩ := List.mem_filter.mp hRow
      exact (List.mem_erase_of_ne (by simpa using hOther)).mpr (hKeys row hRow)
    · intro other hOther
      rw [List.filter_comm]
      exact Nat.le_trans (List.length_filter_le _ _) (hBound other (List.mem_of_mem_erase hOther))
  obtain ⟨size, hSize⟩ : ∃ size, keys.length = size + 1 := ⟨keys.length - 1, by
    have hPos := List.length_pos_of_mem hMem
    omega⟩
  rw [List.length_erase_of_mem hMem, hSize, Nat.add_sub_cancel] at hRest
  rw [hSize, Nat.succ_mul]
  omega

/-- When all fibres are full, so is the table. -/
theorem length_of_fibres (key : α → κ) {keys : List κ} {rows : List α} {size : Nat} (hNodup : keys.Nodup)
    (hKeys : ∀ row ∈ rows, key row ∈ keys) (hSize : ∀ k ∈ keys, (rows.filter (key · = k)).length = size) :
    rows.length = keys.length * size := by
  refine Nat.le_antisymm (length_le_of_fibres key hKeys fun k hk => Nat.le_of_eq (hSize k hk)) ?_
  clear hKeys
  induction keys generalizing rows with
  | nil => exact Nat.le_trans (Nat.le_of_eq (Nat.zero_mul _)) (Nat.zero_le _)
  | cons k keys ih =>
      obtain ⟨hNew, hNodup⟩ := List.nodup_cons.mp hNodup
      have hSplit := List.length_eq_length_filter_add (l := rows) (key · = k)
      have hRest : keys.length * size ≤ (rows.filter fun row => !decide (key row = k)).length := by
        refine ih hNodup fun other hOther => ?_
        have hOthers : other ≠ k := fun hSame => hNew (hSame ▸ hOther)
        rw [List.filter_filter, ← hSize other (List.mem_cons_of_mem _ hOther)]
        refine congrArg List.length (List.filter_congr fun row _ => ?_)
        by_cases hRow : key row = other
        · simp [hRow, hOthers]
        · simp [hRow]
      have hFirst := hSize k List.mem_cons_self
      rw [List.length_cons, Nat.succ_mul]
      omega

/-! Parts of a table whose rows change in place. -/

section Parts

variable {β : Type} {rows : List α} {f : α → α} {p : α → Bool}

/-- A change that keeps the part of every row, seen from one part. -/
theorem filter_map_own (hKeep : ∀ row ∈ rows, p (f row) = p row) : (rows.map f).filter p = (rows.filter p).map f := by
  rw [List.filter_map, List.filter_congr (p := p ∘ f) (q := p) hKeep]

/-- A change outside a part. -/
theorem filter_map_other (hKeep : ∀ row ∈ rows, p (f row) = p row) (hOther : ∀ row ∈ rows, p row = true → f row = row) :
    (rows.map f).filter p = rows.filter p := by
  rw [filter_map_own hKeep]
  have hSame : ∀ row ∈ rows.filter p, f row = row := fun row hRow =>
    hOther row (List.mem_of_mem_filter hRow) (List.mem_filter.mp hRow).2
  rw [List.map_congr_left hSame, List.map_id'']
  exact fun _ => rfl

theorem lookup_map {key' : β → κ} {g : α → β} (hKey : ∀ row ∈ rows, key' (g row) = key row) (k : κ) :
    lookup key' (rows.map g) k = (lookup key rows k).map g := by
  induction rows with
  | nil => rfl
  | cons first rest ih =>
      have hFirst := hKey first List.mem_cons_self
      have hRest := ih fun row hRow => hKey row (List.mem_cons_of_mem _ hRow)
      by_cases hHere : key first = k
      · rw [List.map_cons, lookup, List.find?_cons_of_pos (by simpa [hFirst] using hHere), lookup,
          List.find?_cons_of_pos (by simpa using hHere)]
        rfl
      · rw [List.map_cons, lookup, List.find?_cons_of_neg (by simpa [hFirst] using hHere), lookup,
          List.find?_cons_of_neg (by simpa using hHere)]
        exact hRest

theorem lookup_snoc (k : κ) :
    lookup key (rows ++ [row]) k = (lookup key rows k).or (if key row = k then some row else none) := by
  rw [lookup, List.find?_append, lookup]
  by_cases hKey : key row = k
  · rw [List.find?_cons_of_pos (by simpa using hKey), if_pos hKey]
  · rw [List.find?_cons_of_neg (by simpa using hKey), if_neg hKey]
    rfl

end Parts

end Keyed
