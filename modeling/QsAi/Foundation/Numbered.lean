import Mathlib.Data.List.Sort
import Mathlib.Data.List.Range
import Mathlib.Data.List.Perm.Basic

/-! Histories whose entries are numbered one, two, three and so on. Storage may
return them in any order; sorted by number they are always the same list. -/
namespace Numbered

variable {α : Type}

/-- The entries in the order of their numbers. -/
def sorted (number : α → Nat) (entries : List α) : List α :=
  entries.insertionSort fun a b => number a ≤ number b

/-- The numbers are exactly one to the number of entries. -/
def Complete (number : α → Nat) (entries : List α) : Prop :=
  (entries.map number).Perm (List.range' 1 entries.length)

variable {number : α → Nat} {entries other : List α}

theorem sorted_perm (number : α → Nat) (entries : List α) : (sorted number entries).Perm entries :=
  List.perm_insertionSort _ _

@[simp] theorem mem_sorted {entry : α} : entry ∈ sorted number entries ↔ entry ∈ entries :=
  (sorted_perm number entries).mem_iff

@[simp] theorem length_sorted : (sorted number entries).length = entries.length :=
  (sorted_perm number entries).length_eq

private theorem sorted_numbers (number : α → Nat) (entries : List α) :
    ((sorted number entries).map number).Pairwise (· ≤ ·) := by
  have h := List.pairwise_insertionSort (fun a b => number a ≤ number b) entries
  exact List.pairwise_map.mpr h

@[simp] theorem complete_nil (number : α → Nat) : Complete number [] := List.Perm.refl _

/-- Sorting recovers the numbering. -/
theorem Complete.map_sorted (h : Complete number entries) :
    (sorted number entries).map number = List.range' 1 entries.length := by
  have hPerm : ((sorted number entries).map number).Perm (List.range' 1 entries.length) :=
    ((sorted_perm number entries).map number).trans h
  exact hPerm.eq_of_pairwise' (sorted_numbers number entries) List.pairwise_le_range'

theorem complete_of_map_sorted (h : (sorted number entries).map number = List.range' 1 entries.length) :
    Complete number entries :=
  ((sorted_perm number entries).map number).symm.trans (h ▸ List.Perm.refl _)

theorem Complete.perm (h : Complete number entries) (hPerm : entries.Perm other) : Complete number other := by
  unfold Complete at h ⊢
  rw [← hPerm.length_eq]
  exact (hPerm.map number).symm.trans h

theorem Complete.nodup (h : Complete number entries) : (entries.map number).Nodup :=
  (List.Perm.nodup_iff h).mpr List.nodup_range'

theorem Complete.number_le (h : Complete number entries) {entry : α} (hMem : entry ∈ entries) :
    1 ≤ number entry ∧ number entry ≤ entries.length := by
  have hNumber := (List.Perm.mem_iff h).mp (List.mem_map_of_mem hMem)
  rw [List.mem_range'_1] at hNumber
  omega

/-- In a complete history every number is taken. -/
theorem Complete.exists_number (h : Complete number entries) {n : Nat} (hPos : 1 ≤ n) (hBound : n ≤ entries.length) :
    ∃ entry ∈ entries, number entry = n := by
  have hMem : n ∈ entries.map number := by
    rw [List.Perm.mem_iff h, List.mem_range'_1]
    omega
  exact List.mem_map.mp hMem

/-- In a complete history an entry is determined by its number. -/
theorem Complete.eq_of_number (h : Complete number entries) {a b : α} (ha : a ∈ entries) (hb : b ∈ entries)
    (hNumber : number a = number b) : a = b :=
  List.inj_on_of_nodup_map h.nodup ha hb hNumber

/-- The sorted history does not depend on the order of the rows. -/
theorem Complete.sorted_eq (h : Complete number entries) (hPerm : entries.Perm other) :
    sorted number entries = sorted number other := by
  have hSorted : (sorted number entries).Perm (sorted number other) :=
    (sorted_perm number entries).trans (hPerm.trans (sorted_perm number other).symm)
  have hMaps : (sorted number entries).map number = (sorted number other).map number := by
    rw [h.map_sorted, (h.perm hPerm).map_sorted, hPerm.length_eq]
  refine List.ext_getElem hSorted.length_eq ?_
  intro i hi hj
  have hNumber : number (sorted number entries)[i] = number (sorted number other)[i] := by
    have hGet := congrArg (·[i]?) hMaps
    simpa [List.getElem?_eq_getElem hi, List.getElem?_eq_getElem hj] using hGet
  exact h.eq_of_number (mem_sorted.mp (List.getElem_mem hi))
    (hPerm.mem_iff.mpr (mem_sorted.mp (List.getElem_mem hj))) hNumber

/-- One more entry with the next number is put at the end. -/
theorem Complete.snoc (h : Complete number entries) {entry : α} (hNumber : number entry = entries.length + 1) :
    Complete number (entries ++ [entry]) ∧
    sorted number (entries ++ [entry]) = sorted number entries ++ [entry] := by
  have hComplete : Complete number (entries ++ [entry]) := by
    unfold Complete
    rw [List.map_append, List.length_append, List.length_singleton, List.range'_1_concat]
    refine h.append ?_
    rw [List.map_singleton, hNumber, Nat.add_comm]
  refine ⟨hComplete, ?_⟩
  have hPerm : (entries ++ [entry]).Perm (sorted number entries ++ [entry]) :=
    (sorted_perm number entries).symm.append_right _
  rw [hComplete.sorted_eq hPerm]
  refine List.Pairwise.insertionSort_eq ?_
  rw [List.pairwise_append]
  refine ⟨List.pairwise_insertionSort _ _, List.pairwise_singleton _ _, ?_⟩
  intro a ha b hb
  rw [List.mem_singleton.mp hb, hNumber]
  have hBound := h.number_le (mem_sorted.mp ha)
  omega

/-- The last entry has the highest number. -/
theorem Complete.getLast_number (h : Complete number entries) {last : α}
    (hLast : (sorted number entries).getLast? = some last) : number last = entries.length := by
  have hMap : ((sorted number entries).map number).getLast? = some (number last) := by
    rw [List.getLast?_map, hLast]
    rfl
  rw [h.map_sorted] at hMap
  cases hLength : entries.length with
  | zero =>
      rw [hLength] at hMap
      cases hMap
  | succ n =>
      rw [hLength, List.range'_1_concat, List.getLast?_concat] at hMap
      have := Option.some.inj hMap
      omega

/-- Only the last entry has the highest number. -/
theorem Complete.number_lt_of_mem_dropLast (h : Complete number entries) {entry : α}
    (hMem : entry ∈ (sorted number entries).dropLast) : number entry < entries.length := by
  have hNumber : number entry ∈ ((sorted number entries).map number).dropLast := by
    rw [← List.map_dropLast]
    exact List.mem_map_of_mem hMem
  rw [h.map_sorted] at hNumber
  cases hLength : entries.length with
  | zero =>
      rw [hLength] at hNumber
      cases hNumber
  | succ n =>
      rw [hLength, List.range'_1_concat, List.dropLast_concat, List.mem_range'_1] at hNumber
      omega

theorem Complete.getLast?_of_number (h : Complete number entries) {entry : α} (hMem : entry ∈ entries)
    (hNumber : number entry = entries.length) : (sorted number entries).getLast? = some entry := by
  have hNe : sorted number entries ≠ [] := by
    intro hNil
    have hSorted : entry ∈ sorted number entries := mem_sorted.mpr hMem
    rw [hNil] at hSorted
    cases hSorted
  have hLast : (sorted number entries).getLast? = some ((sorted number entries).getLast hNe) :=
    List.getLast?_eq_getLast_of_ne_nil hNe
  have hSame := h.getLast_number hLast
  rw [hLast, h.eq_of_number (mem_sorted.mp (List.getLast_mem hNe)) hMem (hSame.trans hNumber.symm)]

/-- Changing entries without changing their numbers commutes with sorting. -/
theorem sorted_map {β : Type} {number : α → Nat} {number' : β → Nat} {f : α → β}
    (hNumber : ∀ entry ∈ entries, number' (f entry) = number entry) (h : Complete number entries) :
    Complete number' (entries.map f) ∧ sorted number' (entries.map f) = (sorted number entries).map f := by
  have hMap : (entries.map f).map number' = entries.map number := by
    rw [List.map_map]
    exact List.map_congr_left hNumber
  have hComplete : Complete number' (entries.map f) := by
    unfold Complete
    rw [hMap, List.length_map]
    exact h
  refine ⟨hComplete, ?_⟩
  rw [hComplete.sorted_eq (((sorted_perm number entries).map f).symm)]
  refine List.Pairwise.insertionSort_eq ?_
  rw [List.pairwise_map]
  refine (List.pairwise_insertionSort (fun a b => number a ≤ number b) entries).imp_of_mem ?_
  intro a b ha hb hab
  rw [hNumber a (mem_sorted.mp ha), hNumber b (mem_sorted.mp hb)]
  exact hab

end Numbered
