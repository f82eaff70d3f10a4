import Mathlib.Data.List.Induction
import QsAi.Governance.Quotas

/-! The quota history of an organization. Commands take the lock of the
organization, so they come one after the other; the ceilings may change between
any two of them. -/
namespace QsAi

open Guarded Keyed

/-- A command with the deployment that serves it. -/
structure QuotaCall where
  baseline : QuotaBaseline
  operatorUserId : Nat
  commandId : Nat
  request : QuotaRequest
  time : DateTime

namespace QuotaBook

def perform (book : QuotaBook) (call : QuotaCall) : Except QuotaRefusal (QuotaReceipt × QuotaBook) :=
  book.apply call.baseline call.operatorUserId call.commandId call.request call.time

/-- The book after a command; a refused one is rolled back. -/
def after (book : QuotaBook) (call : QuotaCall) : QuotaBook :=
  match book.perform call with
  | .ok (_, next) => next
  | .error _ => book

/-- The book after the commands, from the empty one. -/
def run (calls : List QuotaCall) : QuotaBook := calls.foldl after {}

/-- The command adds a version. -/
def Commits (book : QuotaBook) (call : QuotaCall) (receipt : QuotaReceipt) (next : QuotaBook) : Prop :=
  book.perform call = .ok (receipt, next) ∧ next.versions.length = book.versions.length + 1

/-! What one command can do. -/

/-- The version and the receipt of a committed command. -/
structure Written (book : QuotaBook) (call : QuotaCall) (receipt : QuotaReceipt) (next : QuotaBook) : Prop where
  fresh : lookup (·.commandId) book.commands call.commandId = none
  current : ∃ configured, book.configuration = .ok (configured, call.request.expectedRevision)
  values : ∃ values, book.written call.request.values call.request.targetRevision = .ok values ∧
    receipt.configured = some values ∧
    next.versions = book.versions ++
      [⟨call.request.expectedRevision + 1, values, call.operatorUserId, call.request.reason, call.time⟩]
  pointer : next.pointer = some (call.request.expectedRevision + 1)
  commands : next.commands = book.commands ++ [⟨call.commandId, call.operatorUserId, call.request, receipt⟩]
  revision : receipt.revision = call.request.expectedRevision + 1

/-- A command that returns is a repetition of a stored one or writes a version. -/
theorem perform_cases {book next : QuotaBook} {call : QuotaCall} {receipt : QuotaReceipt}
    (h : book.perform call = .ok (receipt, next)) :
    (next = book ∧ lookup (·.commandId) book.commands call.commandId =
      some ⟨call.commandId, call.operatorUserId, call.request, receipt⟩) ∨
    book.Written call receipt next := by
  unfold perform QuotaBook.apply at h
  obtain ⟨_, h⟩ := (require_bind_ok _ _ _ _).mp h
  obtain ⟨_, h⟩ := (require_bind_ok _ _ _ _).mp h
  obtain ⟨prior, hPrior, h⟩ := (bind_ok _ _ _).mp h
  unfold QuotaBook.receipt at hPrior
  cases hFound : lookup (·.commandId) book.commands call.commandId with
  | some row =>
      simp only [hFound, bind_ok, require_ok, exists_const, pure_ok] at hPrior
      obtain ⟨hOperator, hRequest, rfl⟩ := hPrior
      cases (pure_ok _ _).mp h
      have hId := (lookup_some hFound).2
      refine .inl ⟨rfl, ?_⟩
      rw [← hId, ← hOperator, ← hRequest call.request rfl]
  | none =>
      simp only [hFound, pure_ok] at hPrior
      subst hPrior
      simp only [write, bind_ok, require_ok, exists_const, pure_ok, Prod.mk.injEq] at h
      obtain ⟨⟨configured, revision⟩, hCurrent, hExpected, values, hValues, _, _, snapshot, hSnapshot, rfl, rfl⟩ := h
      simp only [QuotaBaseline.resolve, bind_ok, require_ok, exists_const, pure_ok] at hSnapshot
      obtain ⟨_, rfl⟩ := hSnapshot
      have hExpected : call.request.expectedRevision = revision := hExpected
      subst hExpected
      exact .inr ⟨hFound, ⟨configured, hCurrent⟩, ⟨values, hValues, rfl, rfl⟩, rfl, rfl, rfl⟩

theorem after_of_perform {book next : QuotaBook} {call : QuotaCall} {receipt : QuotaReceipt}
    (h : book.perform call = .ok (receipt, next)) : book.after call = next := by
  rw [after, h]

theorem Written.grows {book next : QuotaBook} {call : QuotaCall} {receipt : QuotaReceipt}
    (h : book.Written call receipt next) : next.versions.length = book.versions.length + 1 := by
  obtain ⟨values, _, _, hVersions⟩ := h.values
  rw [hVersions, List.length_append, List.length_singleton]

theorem Commits.written {book next : QuotaBook} {call : QuotaCall} {receipt : QuotaReceipt}
    (h : book.Commits call receipt next) : book.Written call receipt next := by
  rcases perform_cases h.1 with ⟨rfl, _⟩ | hWritten
  · exact absurd h.2 (by omega)
  · exact hWritten

/-! The history. -/

/-- A stored command is the one that wrote the version. -/
structure Recorded (versions : List QuotaVersion) (command : QuotaCommand) (version : QuotaVersion) : Prop where
  revision : command.receipt.revision = version.revision
  expected : command.request.expectedRevision + 1 = version.revision
  values : command.receipt.configured = some version.values
  rollback : ∀ target ∈ command.request.targetRevision,
    ∃ source ∈ versions, source.revision = target ∧ target < version.revision ∧ version.values = source.values

/-- Revisions run from one to the pointer, each written by one command. -/
structure Linear (book : QuotaBook) : Prop where
  revisions : book.versions.map (·.revision) = List.range' 1 book.versions.length
  pointer : book.pointer = if book.versions = [] then none else some book.versions.length
  recorded : List.Forall₂ (Recorded book.versions) book.commands book.versions
  once : UniqueOn (·.commandId) book.commands

theorem Linear.start : Linear {} := ⟨rfl, rfl, .nil, List.nodup_nil⟩

theorem Linear.unique {book : QuotaBook} (h : book.Linear) : UniqueOn (·.revision) book.versions := by
  unfold UniqueOn
  rw [h.revisions]
  exact List.nodup_range'

/-- The version in force is the last one. -/
theorem Linear.configuration {book : QuotaBook} (h : book.Linear) :
    book.configuration = .ok ((book.versions.getLast?).map (·.values), book.versions.length) := by
  unfold QuotaBook.configuration
  rw [h.pointer]
  rcases List.eq_nil_or_concat book.versions with hNone | ⟨front, last, hVersions⟩
  · rw [if_pos hNone, hNone]
    rfl
  · have hSome : book.versions ≠ [] := by simp [hVersions]
    have hLast : last.revision = book.versions.length := by
      have hRevisions := h.revisions
      rw [hVersions, List.concat_eq_append, List.map_append, List.length_append, List.length_singleton,
        List.range'_concat] at hRevisions
      have hEnds := List.append_inj_right' hRevisions rfl
      simp only [List.map_cons, List.map_nil, List.cons.injEq, and_true] at hEnds
      rw [hEnds, hVersions, List.concat_eq_append, List.length_append, List.length_singleton]
      omega
    have hMem : last ∈ book.versions := by simp [hVersions]
    rw [if_neg hSome]
    refine (bind_ok _ _ _).mpr ⟨last, (demand_ok _ _ _).mpr (h.unique.lookup_iff.mpr ⟨hMem, hLast⟩), ?_⟩
    rw [hVersions, List.concat_eq_append, List.getLast?_append]
    rfl

theorem Recorded.mono {versions more : List QuotaVersion} {command : QuotaCommand} {version : QuotaVersion}
    (h : Recorded versions command version) (hMore : ∀ source ∈ versions, source ∈ more) :
    Recorded more command version where
  revision := h.revision
  expected := h.expected
  values := h.values
  rollback target hTarget := by
    obtain ⟨source, hMem, hSource⟩ := h.rollback target hTarget
    exact ⟨source, hMore source hMem, hSource⟩

/-- A version that a command writes is the next one. -/
theorem Linear.expected {book next : QuotaBook} {call : QuotaCall} {receipt : QuotaReceipt} (h : book.Linear)
    (hWritten : book.Written call receipt next) : call.request.expectedRevision = book.versions.length := by
  obtain ⟨configured, hCurrent⟩ := hWritten.current
  rw [h.configuration] at hCurrent
  exact (congrArg Prod.snd (Except.ok.inj hCurrent)).symm

theorem Linear.bounded {book : QuotaBook} (h : book.Linear) {version : QuotaVersion} (hMem : version ∈ book.versions) :
    version.revision ≤ book.versions.length := by
  have hRevision := List.mem_map_of_mem (f := (·.revision)) hMem
  rw [h.revisions, List.mem_range'_1] at hRevision
  omega

theorem Linear.written {book next : QuotaBook} {call : QuotaCall} {receipt : QuotaReceipt} (h : book.Linear)
    (hWritten : book.Written call receipt next) : next.Linear := by
  have hExpected := h.expected hWritten
  obtain ⟨values, hValues, hConfigured, hVersions⟩ := hWritten.values
  have hLength := hWritten.grows
  have hKept : ∀ source ∈ book.versions, source ∈ next.versions := by
    intro source hMem
    rw [hVersions]
    exact List.mem_append_left _ hMem
  refine ⟨?_, ?_, ?_, ?_⟩
  · rw [hLength, hVersions, List.map_append, h.revisions, List.range'_concat, hExpected]
    simp [Nat.add_comm]
  · have hSome : next.versions ≠ [] := by simp [hVersions]
    rw [hWritten.pointer, if_neg hSome, hLength, hExpected]
  · rw [hWritten.commands]
    have hNew : Recorded next.versions ⟨call.commandId, call.operatorUserId, call.request, receipt⟩
        ⟨call.request.expectedRevision + 1, values, call.operatorUserId, call.request.reason, call.time⟩ := by
      refine ⟨hWritten.revision, rfl, hConfigured, fun target hTarget => ?_⟩
      have hTarget : call.request.targetRevision = some target := hTarget
      rw [hTarget, QuotaBook.written, bind_ok] at hValues
      obtain ⟨source, hSource, hSame⟩ := hValues
      obtain ⟨hMem, hRevision⟩ := lookup_some ((demand_ok _ _ _).mp hSource)
      have hEarlier : target < call.request.expectedRevision + 1 := by
        rw [← hRevision, hExpected]
        exact Nat.lt_succ_of_le (h.bounded hMem)
      exact ⟨source, hKept source hMem, hRevision, hEarlier, (Except.ok.inj hSame).symm⟩
    have hOld := h.recorded.imp fun _ _ hRecorded => hRecorded.mono hKept
    rw [hVersions] at hOld hNew ⊢
    exact List.rel_append hOld (.cons hNew .nil)
  · rw [hWritten.commands]
    refine h.once.snoc fun hMem => ?_
    obtain ⟨command, hCommand, hId⟩ := List.mem_map.mp hMem
    exact lookup_eq_none.mp hWritten.fresh command hCommand hId

/-- Every command keeps the history linear. -/
theorem Linear.after {book : QuotaBook} (h : book.Linear) (call : QuotaCall) : (book.after call).Linear := by
  unfold QuotaBook.after
  split
  · rename_i receipt next hPerform
    rcases perform_cases hPerform with ⟨rfl, _⟩ | hWritten
    · exact h
    · exact h.written hWritten
  · exact h

/-- What is stored stays. -/
theorem after_kept (book : QuotaBook) (call : QuotaCall) :
    book.commands <+: (book.after call).commands ∧ book.versions <+: (book.after call).versions := by
  unfold after
  split
  · rename_i receipt next hPerform
    rcases perform_cases hPerform with ⟨rfl, _⟩ | hWritten
    · exact ⟨List.prefix_rfl, List.prefix_rfl⟩
    · obtain ⟨values, _, _, hVersions⟩ := hWritten.values
      exact ⟨⟨_, hWritten.commands.symm⟩, ⟨_, hVersions.symm⟩⟩
  · exact ⟨List.prefix_rfl, List.prefix_rfl⟩

/-! Runs. -/

theorem run_snoc (calls : List QuotaCall) (call : QuotaCall) : run (calls ++ [call]) = (run calls).after call := by
  rw [run, List.foldl_append]
  rfl

theorem run_kept (calls later : List QuotaCall) :
    (run calls).commands <+: (run (calls ++ later)).commands ∧ (run calls).versions <+: (run (calls ++ later)).versions := by
  induction later using List.reverseRecOn with
  | nil => simp
  | append_singleton later call ih =>
      rw [← List.append_assoc, run_snoc]
      have hStep := after_kept (run (calls ++ later)) call
      exact ⟨ih.1.trans hStep.1, ih.2.trans hStep.2⟩

/-- The command of a committed call is stored from then on. -/
theorem Commits.stored {calls : List QuotaCall} {call : QuotaCall} {receipt : QuotaReceipt} {next : QuotaBook}
    (h : (run calls).Commits call receipt next) (later : List QuotaCall) :
    (⟨call.commandId, call.operatorUserId, call.request, receipt⟩ : QuotaCommand) ∈ (run (calls ++ call :: later)).commands := by
  have hNext : run (calls ++ [call]) = next := by
    rw [run_snoc, after_of_perform h.1]
  have hKept := (run_kept (calls ++ [call]) later).1
  rw [List.append_assoc, List.singleton_append, hNext] at hKept
  refine hKept.subset ?_
  rw [h.written.commands]
  exact List.mem_append_right _ (List.mem_singleton_self _)

/-- The answer to a stored command under any later deployment. -/
theorem Linear.replayed {book : QuotaBook} (h : book.Linear) {call : QuotaCall} {receipt : QuotaReceipt}
    (hStored : (⟨call.commandId, call.operatorUserId, call.request, receipt⟩ : QuotaCommand) ∈ book.commands)
    (hForm : ∃ earlier answer next, (earlier : QuotaBook).perform call = .ok (answer, next))
    (baseline : QuotaBaseline) (time : DateTime) :
    book.perform { call with baseline, time } = .ok (receipt, book) := by
  obtain ⟨earlier, answer, next, hPerform⟩ := hForm
  unfold perform QuotaBook.apply at hPerform ⊢
  obtain ⟨hCommand, hPerform⟩ := (require_bind_ok _ _ _ _).mp hPerform
  obtain ⟨hTarget, _⟩ := (require_bind_ok _ _ _ _).mp hPerform
  have hFound : lookup (·.commandId) book.commands call.commandId =
      some ⟨call.commandId, call.operatorUserId, call.request, receipt⟩ := h.once.lookup_iff.mpr ⟨hStored, rfl⟩
  rw [require_bind_pos hCommand, require_bind_pos hTarget]
  simp [QuotaBook.receipt, hFound, require]

theorem capped_min (value limit : Nat) : capped value limit = min value limit := by
  unfold capped
  split <;> omega

/-- The limits in force are the configured ones, or else the default ones, where
they are under the ceilings. -/
theorem Linear.resolved {book : QuotaBook} (h : book.Linear) (baseline : QuotaBaseline) :
    ∃ snapshot, book.effective baseline = .ok snapshot ∧ snapshot.revision = book.versions.length ∧
      snapshot.configured = (book.versions.getLast?).map (·.values) ∧
      snapshot.effective.fields = List.zipWith (fun value limit => (value.1, min value.2 limit.2))
        (((book.versions.getLast?).map (·.values)).getD baseline.defaults).fields baseline.ceilings.fields := by
  have hNamed : (book.versions.getLast?).map (·.values) = none ↔ book.versions.length = 0 := by simp
  have hEffective : book.effective baseline = baseline.resolve ((book.versions.getLast?).map (·.values)) book.versions.length := by
    rw [effective, h.configuration, ok_bind]
  rw [hEffective, QuotaBaseline.resolve, require_bind_pos hNamed]
  exact ⟨_, rfl, rfl, rfl, by simp [QuotaValues.bounded, QuotaValues.fields, capped_min]⟩

end QuotaBook

end QsAi
