import WorkflowAudit.Audit.Pool
import WorkflowAudit.Config.Json
import WorkflowAudit.Main
import WorkflowAudit.Workflow.Json
import WorkflowAudit.Proofs.Runs.AggregateLaws
import WorkflowAudit.Proofs.Audit.PoolLaws
import WorkflowAudit.Proofs.Audit.PoolOutcome
import WorkflowAudit.Proofs.Audit.PoolProgress
import WorkflowAudit.Proofs.Audit.PoolRuns
import WorkflowAudit.Proofs.Text.PatternLaws
import WorkflowAudit.Proofs.Lint.Commands
import WorkflowAudit.Proofs.KeyMapLaws
import WorkflowAudit.Proofs.Text.PartLaws
import WorkflowAudit.Proofs.Lint.Offences
import WorkflowAudit.Proofs.Lint.RuleTable
import WorkflowAudit.Proofs.Lint.RuleTableLaws
import WorkflowAudit.Proofs.Yaml.MappingLaws
import WorkflowAudit.Proofs.Workflow.RecoveryLaws
import WorkflowAudit.Proofs.Lint.Relaxation
import WorkflowAudit.Proofs.Lint.RelaxationLaws
import WorkflowAudit.Proofs.Audit.CoverageLaws
import WorkflowAudit.Proofs.Audit.OutcomeCoverage
import WorkflowAudit.Proofs.Audit.IndependenceLaws
import WorkflowAudit.Proofs.Hosting.PagingLaws
import WorkflowAudit.Proofs.Audit.WindowLaws
import WorkflowAudit.Proofs.Lint.EngineLaws
import WorkflowAudit.Proofs.Workflow.NeighbourLaws
import WorkflowAudit.Proofs.Report.TotalsLaws
import WorkflowAudit.Proofs.Audit.OutcomeTotals
import WorkflowAudit.Proofs.Report.RankingLaws
import WorkflowAudit.Proofs.Workflow.DedentLaws
import WorkflowAudit.Proofs.Json.DecodeLaws
import WorkflowAudit.Proofs.Workflow.JsonLaws
import WorkflowAudit.Proofs.Lint.JsonLaws
import WorkflowAudit.Proofs.Audit.JsonLaws
import WorkflowAudit.Proofs.Lint.FilesLaws
import WorkflowAudit.Proofs.Program.LintLaws
import WorkflowAudit.Proofs.Workflow.BlockLaws
import WorkflowAudit.Proofs.Hosting.AnswerLaws
import WorkflowAudit.Proofs.Yaml.ExactLaws
import WorkflowAudit.Proofs.Workflow.JobLaws
import WorkflowAudit.Proofs.Lint.MatrixLaws
import WorkflowAudit.Proofs.Lint.InstallLaws
import WorkflowAudit.Proofs.Lint.CombinationLaws
import WorkflowAudit.Proofs.Files.DiscoveryLaws
import WorkflowAudit.Proofs.Audit.OwnerLaws
import WorkflowAudit.Proofs.Workflow.RunnerLaws
import WorkflowAudit.Proofs.Lint.LineLaws
import WorkflowAudit.Proofs.Lint.OrderLaws
import WorkflowAudit.Proofs.Workflow.EntryLaws
import WorkflowAudit.Proofs.Yaml.VacantLaws
import WorkflowAudit.Proofs.Workflow.DegradationLaws
import WorkflowAudit.Proofs.Text.DigitLaws
import WorkflowAudit.Proofs.Workflow.WellFormedLaws
import WorkflowAudit.Proofs.Workflow.SpellingLaws
import WorkflowAudit.Proofs.Lint.ScheduleLaws
import WorkflowAudit.Proofs.Lint.CacheLaws
import WorkflowAudit.Proofs.Lint.RetentionLaws
import WorkflowAudit.Proofs.Config.SettingsLaws
import WorkflowAudit.Proofs.Program.ActionLaws
import WorkflowAudit.Proofs.Program.AuditLaws
import WorkflowAudit.Proofs.Hosting.ResourceLaws
