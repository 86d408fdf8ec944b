import WorkflowAudit.Json.Decode
import WorkflowAudit.Report.Render

namespace WorkflowAudit.Report

namespace Options

def toJson (o : Options) : Json :=
  .obj [("top_n", .ofNat o.topN), ("schedule_threshold", .ofNat o.scheduleThreshold),
    ("push_dominant_ratio", .ofFloat o.pushDominantRatio),
    ("push_dominant_min_runs", .ofNat o.pushDominantMinRuns),
    ("failure_ratio", .ofFloat o.failureRatio), ("cancel_ratio", .ofFloat o.cancelRatio),
    ("min_runs", .ofNat o.minRuns)]

def ofJson? (j : Json) : Option Options := do
  let fields ← j.record? ["top_n", "schedule_threshold", "push_dominant_ratio",
    "push_dominant_min_runs", "failure_ratio", "cancel_ratio", "min_runs"] 0
  let count (name : String) := Json.field? fields name Json.nat64?
  let ratio (name : String) := Json.field? fields name Json.float?
  return ⟨← count "top_n", ← count "schedule_threshold", ← ratio "push_dominant_ratio",
    ← count "push_dominant_min_runs", ← ratio "failure_ratio", ← ratio "cancel_ratio",
    ← count "min_runs"⟩

end Options

namespace Coverage

def toJson (c : Coverage) : Json :=
  .obj [("owners_requested", .ofNat c.ownersRequested), ("owners_skipped", .ofNat c.ownersSkipped),
    ("repositories_requested", .ofNat c.repositoriesRequested),
    ("repositories_audited", .ofNat c.repositoriesAudited),
    ("repositories_skipped", .ofNat c.repositoriesSkipped),
    ("repositories_cancelled", .ofNat c.repositoriesCancelled),
    ("files_analyzed", .ofNat c.filesAnalyzed), ("files_skipped", .ofNat c.filesSkipped),
    ("degraded_documents", .ofNat c.degradedDocuments), ("rule_failures", .ofNat c.ruleFailures),
    ("cancelled", .bool c.cancelled)]

def ofJson? (j : Json) : Option Coverage := do
  let fields ← j.record? ["owners_requested", "owners_skipped", "repositories_requested",
    "repositories_audited", "repositories_skipped", "repositories_cancelled", "files_analyzed",
    "files_skipped", "degraded_documents", "rule_failures", "cancelled"] 0
  let count (name : String) := Json.field? fields name Json.nat64?
  return ⟨← Json.defaultField? fields "owners_requested" 0 Json.nat64?,
    ← Json.defaultField? fields "owners_skipped" 0 Json.nat64?, ← count "repositories_requested",
    ← count "repositories_audited", ← count "repositories_skipped",
    ← count "repositories_cancelled", ← count "files_analyzed", ← count "files_skipped",
    ← count "degraded_documents", ← count "rule_failures",
    ← Json.field? fields "cancelled" Json.bool?⟩

end Coverage

def Entry.toJson (e : Entry) : Json :=
  .obj [("repository", .str e.repository), ("workflow", .str e.workflow), ("total", .ofNat e.total),
    ("count", .ofNat e.count), ("metric", .ofFloat e.metric)]

def RuleCount.toJson (c : RuleCount) : Json :=
  .obj [("rule", .str c.rule), ("total", .ofNat c.total), ("warnings", .ofNat c.warnings),
    ("infos", .ofNat c.infos)]

def RunnerSplit.toJson (s : RunnerSplit) : Json :=
  .obj [("on_all", .ofNat s.onAll), ("limited", .ofNat s.limited)]

def Summary.toJson (r : Summary) : Json :=
  let entries (l : List Entry) : Json := .arr (l.map Entry.toJson)
  .obj [("workflow_count", .ofNat r.workflowCount), ("total_runs", .ofNat r.totalRuns),
    ("busiest", entries r.busiest), ("schedule_heavy", entries r.scheduleHeavy),
    ("push_dominant", entries r.pushDominant), ("high_failure", entries r.highFailure),
    ("high_cancellation", entries r.highCancellation),
    ("rule_counts", .arr (r.ruleCounts.map RuleCount.toJson)),
    ("expensive_runners", r.expensiveRunners.toJson),
    ("expensive_runners_by_tag", .ofMap RunnerSplit.toJson r.expensiveRunnersByTag),
    ("total_findings", .ofNat r.totalFindings), ("coverage", r.coverage.toJson)]

end WorkflowAudit.Report
