import WorkflowAudit.Identity
import WorkflowAudit.Lint.Text
import WorkflowAudit.Report.Render

namespace WorkflowAudit.Report

open Config (Settings)
open Lint (branchMark ruleWidth)
open Terminal (Paint)

def totalWidth : Nat := 5

def percent (x : Float) : String := Decimal.writeRounded (x * 100) ++ "%"

def Entry.line (paint : Paint) (detail : Entry → String) (number : Nat) (e : Entry) : String :=
  "   " ++ Text.padStart 2 (toString number) ++ ". " ++ paint (.ofColor .cyan) e.repository ++
    " " ++ e.workflow ++ " " ++ paint .dim ("(" ++ detail e ++ ")")

def rankedLines (paint : Paint) (title : String) (detail : Entry → String) (entries : List Entry) :
    List String :=
  [paint .bright (" " ++ title)] ++
  (if entries.isEmpty then ["   " ++ paint .dim "none"]
    else entries.zipIdx.map fun (e, i) => e.line paint detail (i + 1)) ++
  [""]

namespace RuleCount

def totalText (paint : Paint) (c : RuleCount) : String :=
  if c.total = 0 then paint .dim "0" else paint (.strong .yellow) (toString c.total)

def line (paint : Paint) (c : RuleCount) : String :=
  "   " ++ Text.padEnd ruleWidth c.rule ++ " " ++ Text.padStart totalWidth (c.totalText paint) ++
    "   (" ++ toString c.warnings ++ " warning, " ++ toString c.infos ++ " info)"

end RuleCount

namespace Coverage

def lines (paint : Paint) (c : Coverage) : List String :=
  let counted (count : Nat) (text : String) : List String :=
    if count = 0 then [] else ["   " ++ text]
  let alert (count : Nat) (text : String) : List String :=
    counted count (paint (.ofColor .yellow) text)
  [paint .bright " Coverage",
    "   " ++ toString c.repositoriesAudited ++ " of " ++ toString c.repositoriesRequested ++
      " repositories audited, " ++ toString c.filesAnalyzed ++ " workflow files analyzed"] ++
  alert c.ownersSkipped (toString c.ownersSkipped ++ " of " ++ toString c.ownersRequested ++
    " owners could not be listed") ++
  alert c.repositoriesSkipped
    (toString c.repositoriesSkipped ++ " repositories skipped due to fetch failure") ++
  alert c.filesSkipped (toString c.filesSkipped ++ " workflow files could not be fetched") ++
  counted c.degradedDocuments
    (toString c.degradedDocuments ++ " workflow files were only partially parsed") ++
  counted c.ruleFailures (toString c.ruleFailures ++ " rule evaluations failed") ++
  (if c.cancelled then
    ["   " ++ paint (.strong .red) ("Interrupted: " ++ toString c.repositoriesCancelled ++
      " repositories not started, report is partial")]
  else []) ++
  [""]

end Coverage

namespace Summary

def titleLines (paint : Paint) (s : Settings) (r : Summary) : List String :=
  let rule := paint (.ofColor .gray) (String.ofList (List.replicate 70 '━'))
  [rule,
    paint (.strong .cyan) (" " ++ programName ++ " v" ++ programVersion ++ " - " ++
      toString r.workflowCount ++ " workflows, " ++ toString r.totalRuns ++ " runs in the last " ++
      toString s.windowDays ++ " days"),
    rule, ""]

def rankingLines (paint : Paint) (s : Settings) (r : Summary) : List String :=
  rankedLines paint ("Busiest workflows (top " ++ toString s.topN ++ ")")
    (fun e => toString e.total ++ " runs") r.busiest ++
  rankedLines paint
    ("Schedule-heavy workflows (> " ++ toString s.scheduleThreshold ++ " scheduled runs)")
    (fun e => toString e.count ++ " scheduled of " ++ toString e.total) r.scheduleHeavy ++
  rankedLines paint
    ("Push-dominant workflows (> " ++ percent s.pushDominantRatio ++ " push, >= " ++
      toString s.pushDominantMinRuns ++ " runs)")
    (fun e => percent e.metric ++ " push of " ++ toString e.total) r.pushDominant ++
  rankedLines paint ("High failure rate (> " ++ percent s.failureRatio ++ ")")
    (fun e =>
      percent e.metric ++ " failed (" ++ toString e.count ++ " of " ++ toString e.total ++ ")")
    r.highFailure ++
  rankedLines paint ("High cancellation rate (> " ++ percent s.cancelRatio ++ ")")
    (fun e =>
      percent e.metric ++ " cancelled (" ++ toString e.count ++ " of " ++ toString e.total ++ ")")
    r.highCancellation

def ruleLines (paint : Paint) (r : Summary) : List String :=
  [paint .bright " Findings by rule"] ++ r.ruleCounts.map (·.line paint) ++
  ["   " ++ paint .bright (Text.padEnd ruleWidth "Total") ++ " " ++
    Text.padStart totalWidth (toString r.totalFindings), ""]

def runnerLines (paint : Paint) (r : Summary) : List String :=
  [paint .bright " Expensive runners",
    "   " ++ paint (.strong .red) (toString r.expensiveRunners.onAll) ++
      " on all pushes or pull requests, " ++
      paint (.ofColor .green) (toString r.expensiveRunners.limited) ++
      " limited to protected branches"] ++
  r.expensiveRunnersByTag.entries.map (fun (tag, split) =>
    "   " ++ branchMark paint ++ " " ++ tag ++ ": " ++ toString split.onAll ++ " on all, " ++
      toString split.limited ++ " limited") ++
  [""]

def lines (paint : Paint) (s : Settings) (r : Summary) : List String :=
  r.titleLines paint s ++ r.rankingLines paint s ++ r.ruleLines paint ++ r.runnerLines paint ++
    r.coverage.lines paint

end Summary

end WorkflowAudit.Report
