import WorkflowAudit.Audit.Repository
import WorkflowAudit.Report.Render
import WorkflowAudit.Runs.Aggregate

namespace WorkflowAudit.Audit

open Lint (Engine FindingRow)
open Report (Coverage Options Summary)

structure Outcome where
  records : List Runs.Record
  stats : List Runs.Stats
  findings : List FindingRow
  diagnostics : List Diagnostic
  coverage : Coverage
  ruleOrder : List String
  deriving DecidableEq, Repr

namespace Outcome

def coverageOf (audits : List (Option RepositoryAudit)) (cancelled : Bool) : Coverage :=
  let started := audits.filterMap id
  let files := FileResults.join (started.map (·.files))
  { Coverage.none with
    repositoriesRequested := audits.length
    repositoriesAudited := started.countP (·.runHistory.isEmpty)
    repositoriesSkipped := started.countP (!·.runHistory.isEmpty)
    repositoriesCancelled := audits.countP Option.isNone
    filesAnalyzed := files.analyzed
    filesSkipped := files.skipped
    degradedDocuments := files.degraded
    ruleFailures := files.ruleFailures
    cancelled }

def ofAudits (engine : Engine) (windowDays : Nat) (now : Time.Instant) (cancelled : Bool)
    (audits : List (Option RepositoryAudit)) : Except Runs.WindowError Outcome := do
  let started := audits.filterMap id
  let records := started.flatMap (·.records)
  return {
    records
    stats := ← Runs.aggregate records windowDays now
    findings := started.flatMap (·.files.findings)
    diagnostics := started.flatMap fun a => a.runHistory ++ a.files.diagnostics
    coverage := coverageOf audits cancelled
    ruleOrder := engine.ruleIds }

def recordOwnerListing (o : Outcome) (ownersRequested : Nat) (diagnostics : List Diagnostic) :
    Outcome :=
  { o with
    diagnostics := diagnostics ++ o.diagnostics
    coverage := { o.coverage with
      ownersRequested
      ownersSkipped := diagnostics.countP (·.kind = .repositoryListing) } }

def rows (o : Outcome) : List Runs.StatsRow := o.stats.map Runs.Stats.row

def report (o : Outcome) (options : Options) : Summary :=
  Report.render o.stats o.findings o.ruleOrder o.coverage options

end Outcome

end WorkflowAudit.Audit
