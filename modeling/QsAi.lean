import QsAi.Run.Scores
import QsAi.Run.CancellationSafety
import QsAi.Run.CancellationAudit
import QsAi.Run.ReviewPilot
import QsAi.Run.CorrectionReplay
import QsAi.Run.ContractRecovery
import QsAi.Run.DispatchBudget
import QsAi.Evaluation.StepOutcome
import QsAi.Organization.Capacity
import QsAi.Workflow.TransactionRoot
import QsAi.Governance.Selector
import QsAi.Workflow.Archive
import QsAi.Workflow.FrozenFacts
import QsAi.Maintenance.Runs
import QsAi.Interpretation.Requests
import QsAi.Interpretation.Commits
import QsAi.Run.Verdicts
import QsAi.Run.DrainReadiness
import QsAi.Run.SerialExpiry
import QsAi.Maintenance.PromptRetirement
import QsAi.Run.SerialPlanning
import QsAi.Interpretation.Lineage
import QsAi.Interpretation.TypeCodes
import QsAi.Interpretation.SafetyVerdict
import QsAi.Run.InventoryAnswers
import QsAi.Governance.QuotaHistory
import QsAi.Organization.ModelCapacity
import QsAi.Evaluation.Normalization
import QsAi.Foundation.JsonWeight
import QsAi.Maintenance.PromptReferences
import QsAi.Run.BlockEvidence
import QsAi.Run.DispatchReconciliation
import QsAi.Foundation.JsonForm
import QsAi.Foundation.Template
import QsAi.Interpretation.Prompts
import QsAi.Maintenance.BackupExact
import QsAi.Evaluation.CaseEdits
import QsAi.Governance.Profiles
import QsAi.Interpretation.Coherence
import QsAi.Interpretation.Fences
import QsAi.Interpretation.Slots
import QsAi.Interpretation.Deliveries
import QsAi.Interpretation.Outbox
import QsAi.Interpretation.Retries
import QsAi.Interpretation.Histories
import QsAi.Interpretation.Progress
