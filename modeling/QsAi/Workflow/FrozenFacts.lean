import QsAi.Workflow.EvaluationFacts
import QsAi.Workflow.InterpretationFacts

/-! The codec of frozen facts. Facts survive being written and read, and accepted
bytes are canonical; but a time outside the calendar makes the reader fail with
an error that its callers do not expect. -/
namespace QsAi

open PyJson TextEncoding BigEndian Guarded

/-- A reader of the one spelling that the code writes, in any zone. -/
def strictIso : IsoReader := fun value =>
  (encode value).bind fun characters => (DateTime.readMicroseconds characters.toList).map some

theorem strictIso_undoes : IsoReader.Undoes strictIso := by
  intro time hUtc
  simp only [strictIso, encode_text, Option.bind_some, DateTime.readMicroseconds_isoformat hUtc, Option.map_some]

/-- Both codecs: facts are read from their bytes; reading ends with the expected
error or with the facts of exactly these bytes, if and only if no time outside
the calendar comes through the checks; accepted bytes carry one magic. -/
theorem frozen_facts_codec (limit : Nat) (fromisoformat : IsoReader) (hIso : fromisoformat.Undoes) :
    ((∀ facts : EvaluationStateFacts, ∃ raw, facts.encode = .ok raw ∧
        EvaluationStateFacts.decode limit fromisoformat raw = .ok facts) ∧
      ∀ facts : InterpretationStateFacts, ∃ raw, facts.encode = .ok raw ∧
        InterpretationStateFacts.decode limit fromisoformat raw = .ok facts) ∧
    (∀ raw, (EvaluationStateFacts.decode limit fromisoformat raw = .error .valueError ∨
        ∃ facts, EvaluationStateFacts.decode limit fromisoformat raw = .ok facts ∧ facts.encode = .ok raw) ↔
      ∀ arguments, EvaluationStateArguments.parse limit fromisoformat raw = .ok arguments → arguments.Checked →
        ¬ arguments.time.OutsideCalendar) ∧
    (∀ raw, (InterpretationStateFacts.decode limit fromisoformat raw = .error .valueError ∨
        ∃ facts, InterpretationStateFacts.decode limit fromisoformat raw = .ok facts ∧ facts.encode = .ok raw) ↔
      ∀ arguments, InterpretationStateArguments.parse limit fromisoformat raw = .ok arguments → arguments.Checked →
        ¬ arguments.time.OutsideCalendar) ∧
    (∀ raw facts, EvaluationStateFacts.decode limit fromisoformat raw = .ok facts →
      (∀ magic ∈ stateMagics, magic <+: raw ↔ magic = facts.layout.magic) ∧
        ∀ other, InterpretationStateFacts.decode limit fromisoformat raw ≠ .ok other) ∧
    ∀ raw facts, InterpretationStateFacts.decode limit fromisoformat raw = .ok facts →
      ∀ magic ∈ stateMagics, magic <+: raw ↔ magic = facts.layout.magic := by
  refine ⟨⟨?evaluation, ?interpretation⟩, EvaluationStateFacts.decode_expected_iff limit fromisoformat,
    InterpretationStateFacts.decode_expected_iff limit fromisoformat, ?apart, ?one⟩
  case evaluation =>
    intro facts
    obtain ⟨raw, hRaw, -⟩ := facts.encode_total
    exact ⟨raw, hRaw, EvaluationStateFacts.decode_encode limit hIso hRaw⟩
  case interpretation =>
    intro facts
    obtain ⟨raw, hRaw, -⟩ := facts.encode_total
    exact ⟨raw, hRaw, InterpretationStateFacts.decode_encode limit hIso hRaw⟩
  case apart =>
    intro raw facts hFacts
    refine ⟨fun magic hMagic => EvaluationStateFacts.magic_of_decode hFacts hMagic, ?_⟩
    intro other hOther
    have hStarts := (InterpretationStateFacts.magic_of_decode hOther other.layout.magic_mem).mpr rfl
    have hSame := (EvaluationStateFacts.magic_of_decode hFacts other.layout.magic_mem).mp hStarts
    have hApart : ∀ (layout : InterpretationLayout) (evaluation : EvaluationLayout), layout.magic ≠ evaluation.magic := by
      intro layout evaluation
      cases layout <;> cases evaluation <;> decide
    exact hApart other.layout facts.layout hSame
  case one =>
    intro raw facts hFacts magic hMagic
    exact InterpretationStateFacts.magic_of_decode hFacts hMagic

/-- The reader of the written spelling undoes the writer. -/
theorem frozen_facts_codec_strict : strictIso.Undoes ∧
    (∀ raw, (EvaluationStateFacts.decode 1000 strictIso raw = .error .valueError ∨
        ∃ facts, EvaluationStateFacts.decode 1000 strictIso raw = .ok facts ∧ facts.encode = .ok raw) ↔
      ∀ arguments, EvaluationStateArguments.parse 1000 strictIso raw = .ok arguments → arguments.Checked →
        ¬ arguments.time.OutsideCalendar) :=
  ⟨strictIso_undoes, (frozen_facts_codec 1000 strictIso strictIso_undoes).2.1⟩

/-- Facts at the first midnight of the calendar, one hour east of Greenwich. -/
def firstMidnight : List (String × Scalar) :=
  [("at", .string (text "0001-01-01T00:00:00.000000+01:00")), ("expected_version", .nat 1), ("operation_key", .string (text "op")),
    ("organization_id", .string (text "7")), ("previous_sequence", .nat 0), ("previous_version", .nat 0),
    ("run_id", .string (text "00000000-0000-4000-8000-000000000001")), ("source_digest", .string (hexText (List.replicate 32 0)))]

def firstMidnightBytes : Bytes := EvaluationLayout.plain.magic ++ canonicalBytes firstMidnight

theorem firstMidnight_writable : Writable firstMidnight EvaluationLayout.plain.names where
  nonempty := by decide
  named := by decide
  distinct := EvaluationLayout.plain.names_plain.1
  plain := EvaluationLayout.plain.names_plain.2
  values := by
    simp only [firstMidnight, List.forall_mem_cons, List.not_mem_nil, false_implies, implies_true, and_true]
    have hTime : PyJson.Plain (text "0001-01-01T00:00:00.000000+01:00") := by decide
    have hKey : PyJson.Plain (text "op") ∧ PyJson.Plain (text "7") ∧ PyJson.Plain (text "00000000-0000-4000-8000-000000000001") := by decide
    have hVersion : 1 < maxVersion ∧ 0 < maxVersion := by decide
    exact ⟨hTime, version_plain hVersion.1, hKey.1, hKey.2.1, version_plain hVersion.2, version_plain hVersion.2, hKey.2.2,
      hexText_plain _⟩

/-- The bytes spell checked arguments whose time precedes the calendar. -/
theorem firstMidnight_overflows : ∃ arguments, EvaluationStateArguments.parse 1000 strictIso firstMidnightBytes = .ok arguments ∧
    arguments.Checked ∧ arguments.time.OutsideCalendar := by
  have hPrefix : EvaluationLayout.plain.magic <+: firstMidnightBytes := ⟨_, rfl⟩
  have hLength : firstMidnightBytes.length ≤ maxContext := by decide +kernel
  have hRead : ((EvaluationStateArguments.read strictIso .plain (readMembers firstMidnight)).any fun arguments =>
      decide (arguments.Checked ∧ arguments.time.OutsideCalendar)) = true := by decide +kernel
  obtain ⟨arguments, hArguments, hOutside⟩ := (Option.any_eq_true _ _).mp hRead
  refine ⟨arguments, ?_, of_decide_eq_true hOutside⟩
  unfold EvaluationStateArguments.parse
  simp only
  rw [EvaluationLayout.announced_of_prefix hPrefix, require_bind_pos ⟨hLength, List.isPrefixOf_iff_prefix.mpr hPrefix⟩,
    firstMidnightBytes, List.drop_left, readObject_canonical 1000 firstMidnight_writable, ok_bind, hArguments]
  rfl

/-- Not every refusal is the expected error. -/
theorem frozen_facts_overflow : ¬ ∀ raw, EvaluationStateFacts.decode 1000 strictIso raw = .error .valueError ∨
    ∃ facts, EvaluationStateFacts.decode 1000 strictIso raw = .ok facts ∧ facts.encode = .ok raw := by
  intro hClaim
  obtain ⟨arguments, hParsed, hChecked, hOutside⟩ := firstMidnight_overflows
  exact (EvaluationStateFacts.decode_expected_iff 1000 strictIso firstMidnightBytes).mp (hClaim firstMidnightBytes) arguments
    hParsed hChecked hOutside

end QsAi
