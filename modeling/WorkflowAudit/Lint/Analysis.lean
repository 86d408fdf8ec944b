import WorkflowAudit.Lint.Engine
import WorkflowAudit.Workflow.Parse

namespace WorkflowAudit.Lint

open Workflow (Document)

structure FileAnalysis where
  file : String
  workflowName : Option String
  jobCount : Nat
  stepCount : Nat
  degraded : Bool
  diagnostics : List String
  findings : List Finding
  ruleFailures : List String
  deriving DecidableEq, Repr

namespace FileAnalysis

def warningCount (a : FileAnalysis) : Nat := countOf .warning a.findings

def infoCount (a : FileAnalysis) : Nat := countOf .info a.findings

def ofDocument (d : Document) (file : String) : FileAnalysis :=
  let evaluation := Engine.builtin.evaluate d file
  { file
    workflowName := d.name
    jobCount := d.jobCount
    stepCount := d.stepCount
    degraded := d.degraded
    diagnostics := d.diagnostics
    findings := evaluation.findings
    ruleFailures := evaluation.failures.map fun f => f.rule ++ ": " ++ f.error.message }

def ofText (text file : String) : FileAnalysis := ofDocument (Document.parse text) file

end FileAnalysis

structure SkippedFile where
  file : String
  reason : String
  deriving DecidableEq, Repr

structure LintRun where
  analyses : List FileAnalysis
  skipped : List SkippedFile
  deriving DecidableEq, Repr

end WorkflowAudit.Lint
