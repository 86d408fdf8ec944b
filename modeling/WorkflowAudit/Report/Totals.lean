import WorkflowAudit.KeyMap
import WorkflowAudit.Lint.Finding

namespace WorkflowAudit.Report

open Lint (Finding FindingRow)

structure RuleCount where
  rule : String
  total : Nat
  warnings : Nat
  infos : Nat
  deriving DecidableEq, Repr

namespace RuleCount

def zero (rule : String) : RuleCount := ⟨rule, 0, 0, 0⟩

def add (c : RuleCount) (f : Finding) : RuleCount :=
  match f.severity with
  | .warning => { c with total := c.total + 1, warnings := c.warnings + 1 }
  | .info => { c with total := c.total + 1, infos := c.infos + 1 }

end RuleCount

def countFinding (f : Finding) : List RuleCount → List RuleCount
  | [] => [(RuleCount.zero f.rule).add f]
  | c :: rest => if c.rule = f.rule then c.add f :: rest else c :: countFinding f rest

/-- One row per rule in a given order, then rows for other rules as they come. -/
def ruleCounts (ruleOrder : List String) (rows : List FindingRow) : List RuleCount :=
  rows.foldl (fun counts row => countFinding row.finding counts) (ruleOrder.map .zero)

structure RunnerSplit where
  onAll : Nat
  limited : Nat
  deriving DecidableEq, Repr

namespace RunnerSplit

def zero : RunnerSplit := ⟨0, 0⟩

def add (s : RunnerSplit) (f : Finding) : RunnerSplit :=
  match f.severity with
  | .warning => { s with onAll := s.onAll + 1 }
  | .info => { s with limited := s.limited + 1 }

end RunnerSplit

def expensiveRunnerRule : String := "EXPENSIVE_RUNNER"

def expensiveFindings (rows : List FindingRow) : List Finding :=
  (rows.map (·.finding)).filter (·.rule = expensiveRunnerRule)

def expensiveSplit (rows : List FindingRow) : RunnerSplit :=
  (expensiveFindings rows).foldl .add .zero

def tagOf (f : Finding) : String := f.tag.getD "UNTAGGED"

def expensiveSplitByTag (rows : List FindingRow) : KeyMap RunnerSplit :=
  (expensiveFindings rows).foldl (fun m f =>
    m.insert (tagOf f) (((m.get? (tagOf f)).getD .zero).add f)) .empty

end WorkflowAudit.Report
