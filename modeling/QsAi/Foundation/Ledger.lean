import Mathlib.Data.List.Nodup
import Mathlib.Data.List.Perm.Basic
import Mathlib.Data.List.Count

/-! A ledger of issued keys. Each key is issued once, is live until it is
settled, and is settled once; the lists may come in any order. -/
namespace Ledger

variable {κ : Type}

/-- Every issued key is either live or settled, and nothing else is. -/
structure Balanced (issued live settled : List κ) : Prop where
  nodup : issued.Nodup
  perm : issued.Perm (live ++ settled)

namespace Balanced

variable {issued live settled live' settled' : List κ} {k : κ}

theorem nil : Balanced ([] : List κ) [] [] := ⟨List.nodup_nil, List.Perm.refl _⟩

/-- The order of the lists does not matter. -/
theorem congr (h : Balanced issued live settled) (hLive : live.Perm live') (hSettled : settled.Perm settled') :
    Balanced issued live' settled' :=
  ⟨h.nodup, h.perm.trans (hLive.append hSettled)⟩

/-- Issuing a new key makes it live. -/
theorem issue (h : Balanced issued live settled) (hNew : k ∉ issued) :
    Balanced (issued ++ [k]) (k :: live) settled := by
  refine ⟨List.Nodup.append h.nodup (List.nodup_singleton k) ?_, ?_⟩
  · intro other hOther hSame
    rw [List.mem_singleton.mp hSame] at hOther
    exact hNew hOther
  · exact List.perm_append_comm.trans (h.perm.cons k)

/-- Settling a live key takes it off the live ones. -/
theorem settle (h : Balanced issued (k :: live) settled) : Balanced issued live (k :: settled) :=
  ⟨h.nodup, h.perm.trans List.perm_middle.symm⟩

theorem nodup_append (h : Balanced issued live settled) : (live ++ settled).Nodup := h.perm.nodup_iff.mp h.nodup

theorem settled_nodup (h : Balanced issued live settled) : settled.Nodup :=
  (List.nodup_append.mp h.nodup_append).2.1

theorem live_nodup (h : Balanced issued live settled) : live.Nodup :=
  (List.nodup_append.mp h.nodup_append).1

theorem issued_of_live (h : Balanced issued live settled) (hLive : k ∈ live) : k ∈ issued :=
  h.perm.mem_iff.mpr (List.mem_append_left _ hLive)

theorem issued_of_settled (h : Balanced issued live settled) (hSettled : k ∈ settled) : k ∈ issued :=
  h.perm.mem_iff.mpr (List.mem_append_right _ hSettled)

theorem not_settled_of_live (h : Balanced issued live settled) (hLive : k ∈ live) : k ∉ settled :=
  fun hSettled => (List.nodup_append.mp h.nodup_append).2.2 k hLive k hSettled rfl

/-- An issued key that is not live is settled. -/
theorem settled_of_not_live (h : Balanced issued live settled) (hIssued : k ∈ issued) (hLive : k ∉ live) :
    k ∈ settled :=
  (List.mem_append.mp (h.perm.mem_iff.mp hIssued)).resolve_left hLive

theorem live_of_not_settled (h : Balanced issued live settled) (hIssued : k ∈ issued) (hSettled : k ∉ settled) :
    k ∈ live :=
  (List.mem_append.mp (h.perm.mem_iff.mp hIssued)).resolve_right hSettled

/-- The settled part of the issued keys, in the order they were issued. -/
theorem filter_settled [DecidableEq κ] (h : Balanced issued live settled) :
    (issued.filter (· ∈ settled)).Perm settled := by
  refine (List.perm_ext_iff_of_nodup (h.nodup.filter _) h.settled_nodup).mpr ?_
  intro k
  rw [List.mem_filter, decide_eq_true_iff]
  exact ⟨fun hk => hk.2, fun hk => ⟨h.issued_of_settled hk, hk⟩⟩

end Balanced

end Ledger
