import WorkflowAudit.Identity
import WorkflowAudit.Lint.Analysis
import WorkflowAudit.Terminal.Style
import WorkflowAudit.Text.Layout

namespace WorkflowAudit.Lint

open Terminal (Paint Style)

def branchMark (paint : Paint) : String := paint .dim "|-"

def ruleWidth : Nat := 24

def ruleLines (paint : Paint) (rules : List Rule) : List String :=
  ["", paint .bright (" " ++ toString rules.length ++ " detection rules"), ""] ++
  rules.map (fun r =>
    "   " ++ paint (.ofColor .cyan) (Text.padEnd ruleWidth r.id) ++ " " ++ r.summary) ++
  [""]

namespace Severity

def markStyle : Severity → Style
  | .warning => { bold := true, background := some .yellow, foreground := some .black }
  | .info => { background := some .blue, foreground := some .white }

def mark (paint : Paint) (s : Severity) : String := paint s.markStyle (" " ++ s.symbol ++ " ")

def countStyle : Severity → Style
  | .warning => .strong .yellow
  | .info => .ofColor .cyan

def countText (paint : Paint) (s : Severity) (count : Nat) : String :=
  if count = 0 then "0" else paint s.countStyle (toString count)

end Severity

def Finding.line (paint : Paint) (f : Finding) : String :=
  let tag := match f.tag with
    | some tag => "/" ++ paint .dim tag
    | none => ""
  " " ++ f.severity.mark paint ++ " [" ++ paint .dim f.rule ++ tag ++ "] " ++ f.message

namespace FileAnalysis

def titleLines (paint : Paint) (a : FileAnalysis) : List String :=
  ["", paint .bright (" " ++ programName ++ " v" ++ programVersion ++ " - Linting " ++ a.file), ""]

def workflowLines (paint : Paint) (a : FileAnalysis) : List String :=
  let entry (text : String) : String := " " ++ branchMark paint ++ " " ++ text
  [" " ++ paint { bold := true, underlined := true } "Workflow"] ++
  (a.workflowName.map fun name => entry ("Name: " ++ paint (.ofColor .cyan) name)).toList ++
  [entry (toString a.jobCount ++ " jobs, " ++ toString a.stepCount ++ " steps")] ++
  if a.degraded then
    entry (paint (.ofColor .yellow) "Partially parsed, some sections were skipped") ::
      a.diagnostics.map fun d => "    " ++ paint .dim "|" ++ " " ++ paint .dim d
  else []

def findingLines (paint : Paint) (a : FileAnalysis) : List String :=
  if a.findings.isEmpty then [" " ++ paint (.strong .green) "OK" ++ " No anti-patterns detected."]
  else a.findings.map (·.line paint)

def failureLines (paint : Paint) (a : FileAnalysis) : List String :=
  a.ruleFailures.map fun f => " " ++ paint .dim " SKIPPED " ++ " " ++ paint .dim f

def countLine (paint : Paint) (a : FileAnalysis) : String :=
  " " ++ Severity.warning.countText paint a.warningCount ++ " warnings, " ++
    Severity.info.countText paint a.infoCount ++ " info"

def lines (paint : Paint) (a : FileAnalysis) : List String :=
  a.titleLines paint ++ a.workflowLines paint ++ [""] ++ a.findingLines paint ++
    a.failureLines paint ++ ["", a.countLine paint, ""]

end FileAnalysis

def skippedLines (paint : Paint) (skipped : List SkippedFile) : List String :=
  if skipped.isEmpty then []
  else
    [" " ++ paint (.strong .yellow) (toString skipped.length ++ " workflow files skipped")] ++
    skipped.map (fun s =>
      "   " ++ branchMark paint ++ " " ++ paint (.ofColor .cyan) s.file ++ ": " ++
        paint .dim s.reason) ++
    [""]

def LintRun.lines (paint : Paint) (r : LintRun) : List String :=
  r.analyses.flatMap (·.lines paint) ++ skippedLines paint r.skipped

end WorkflowAudit.Lint
