import WorkflowAudit.Report.Coverage
import WorkflowAudit.Report.Ranking
import WorkflowAudit.Report.Totals

namespace WorkflowAudit.Report

open Runs (Stats)
open Lint (FindingRow)

structure Summary where
  workflowCount : Nat
  totalRuns : Nat
  busiest : List Entry
  scheduleHeavy : List Entry
  pushDominant : List Entry
  highFailure : List Entry
  highCancellation : List Entry
  ruleCounts : List RuleCount
  expensiveRunners : RunnerSplit
  expensiveRunnersByTag : KeyMap RunnerSplit
  totalFindings : Nat
  coverage : Coverage

def render (stats : List Stats) (findings : List FindingRow) (ruleOrder : List String)
    (coverage : Coverage) (o : Options) : Summary where
  workflowCount := stats.length
  -- In an audit each of these runs is a record that was held, so that the sum is a word. It is not
  -- one for all statistics there could be; here it has no bound.
  totalRuns := (stats.map (·.total)).foldr (· + ·) 0
  busiest := busiest o.topN stats
  scheduleHeavy := scheduleHeavy o.scheduleThreshold stats
  pushDominant := pushDominant o stats
  highFailure := highFailure o stats
  highCancellation := highCancellation o stats
  ruleCounts := ruleCounts ruleOrder findings
  expensiveRunners := expensiveSplit findings
  expensiveRunnersByTag := expensiveSplitByTag findings
  totalFindings := findings.length
  coverage

end WorkflowAudit.Report
