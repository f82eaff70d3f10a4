import QsAi.Text

/-! Storage layouts. The tables of the old layout are renamed or merged in the
new one; an intermediate layout merges without renaming. -/
namespace QsAi

namespace SchemaRefactor

inductive Head
  | old
  | intermediate
  | new
deriving DecidableEq

def Head.revision : Head → String
  | .old => "0038_messaging_observations"
  | .intermediate => "0039_data_consolidation"
  | .new => "0040_module_table_names"

/-- The head that a revision names. -/
def Head.read (revision : String) : Option Head :=
  [Head.old, .intermediate, .new].find? fun head => head.revision == revision

/-- Tables of the old layout. -/
def legacyTables : List String :=
  ["interpretation_sessions", "clarifications", "evidence_sets", "interpretation_runs", "execution_jobs",
   "model_calls", "interpretation_artifacts", "idempotency_requests", "execution_leases", "external_requests",
   "result_outbox", "profile_assets", "prompt_assets", "route_assets", "schema_assets", "evaluation_checkpoints",
   "evaluation_run_policies", "evaluation_dispatches", "evaluation_runs", "evaluation_generation_completions",
   "evaluation_semantic_completions", "configuration_publications", "configuration_publication_pointers",
   "configuration_publication_changes", "execution_configurations", "prompt_drafts", "prompt_draft_revisions",
   "prompt_draft_freezes", "profile_registrations", "evaluation_suites", "evaluation_admission_locks",
   "evaluation_capacity_reservations", "participant_admission_locks", "participant_capacity_reservations",
   "participant_retries", "solution_revisions", "solution_commands", "organization_quota_versions",
   "organization_quota_pointers", "organization_quota_commands", "evaluation_policy_assets",
   "semantic_prompt_assets", "runtime_milestones", "semantic_draft_heads", "semantic_draft_versions",
   "semantic_draft_commands", "evaluation_slot_claims", "evaluation_response_receipts", "ai_messaging_outbox",
   "ai_messaging_inbox", "ai_messaging_quarantine", "ai_messaging_observations",
   "ai_messaging_evaluation_sequences"]

def renames : List (String × String) :=
  [("clarifications", "interpretation_clarifications"), ("evidence_sets", "interpretation_evidence_sets"),
   ("idempotency_requests", "interpretation_idempotency_requests"),
   ("result_outbox", "interpretation_result_outbox"), ("model_calls", "execution_model_calls"),
   ("participant_retries", "execution_participant_retries"),
   ("prompt_draft_freezes", "governance_prompt_draft_freezes"),
   ("profile_registrations", "governance_profile_registrations"), ("solution_revisions", "governance_solutions"),
   ("solution_commands", "governance_solution_commands"),
   ("semantic_draft_commands", "governance_semantic_draft_commands"),
   ("configuration_publications", "publication_records"),
   ("configuration_publication_pointers", "publication_pointers"),
   ("configuration_publication_changes", "publication_changes"),
   ("evaluation_admission_locks", "quota_evaluation_admission_locks"),
   ("evaluation_capacity_reservations", "quota_evaluation_capacity_reservations"),
   ("participant_admission_locks", "quota_participant_admission_locks"),
   ("participant_capacity_reservations", "quota_participant_capacity_reservations"),
   ("organization_quota_versions", "quota_organization_versions"),
   ("organization_quota_pointers", "quota_organization_pointers"),
   ("organization_quota_commands", "quota_organization_commands"), ("ai_messaging_outbox", "messaging_outbox"),
   ("ai_messaging_inbox", "messaging_inbox"), ("ai_messaging_quarantine", "messaging_quarantine"),
   ("ai_messaging_evaluation_sequences", "messaging_evaluation_sequences"),
   ("ai_messaging_observations", "messaging_observations"), ("runtime_milestones", "operations_runtime_milestones")]

def merges : List (String × String) :=
  [("profile_assets", "governance_asset_versions"), ("prompt_assets", "governance_asset_versions"),
   ("route_assets", "governance_asset_versions"), ("schema_assets", "governance_asset_versions"),
   ("evaluation_policy_assets", "governance_asset_versions"),
   ("semantic_prompt_assets", "governance_asset_versions"), ("prompt_drafts", "governance_draft_heads"),
   ("semantic_draft_heads", "governance_draft_heads"), ("prompt_draft_revisions", "governance_draft_versions"),
   ("semantic_draft_versions", "governance_draft_versions"), ("external_requests", "interpretation_sessions"),
   ("evaluation_run_policies", "evaluation_runs"), ("evaluation_generation_completions", "evaluation_completions"),
   ("evaluation_semantic_completions", "evaluation_completions")]

private def renamed (pairs : List (String × String)) (name : String) : Option String :=
  (pairs.find? (·.1 == name)).map (·.2)

/-- The table that holds the rows of an old table under a layout. -/
def physical (name : String) : Head → String
  | .old => name
  | .intermediate => (renamed merges name).getD name
  | .new => (renamed merges name).getD ((renamed renames name).getD name)

def observationTable : String := "ai_messaging_observations"

def observationSeeds : List String :=
  ["duplicate_command", "duplicate_ack", "payload_fetch_unavailable", "payload_fetch_reference_mismatch",
   "payload_fetch_workload_denied", "payload_serve_reference_mismatch", "payload_serve_workload_denied",
   "payload_serve_storage_unavailable"]

def autoIncrementTables : List String := ["evaluation_admission_locks", "participant_admission_locks"]

def versionTable : String := "alembic_version"

/-- The tables of a layout, the one of its head included. -/
def expectedTables (head : Head) : List String := versionTable :: legacyTables.map (physical · head)

/-- A name of a schema or a table: a small letter, then at most 63 small
letters, digits or underscores. -/
def identifier (value : String) : Bool :=
  match value.toList with
  | [] => false
  | first :: rest => ('a' ≤ first && first ≤ 'z') && rest.length ≤ 63 &&
      rest.all fun c => ('a' ≤ c && c ≤ 'z') || c.isDigit || c == '_'

end SchemaRefactor

end QsAi
