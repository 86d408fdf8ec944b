import WorkflowAudit.Lint.Rule
import WorkflowAudit.Text.Pattern

namespace WorkflowAudit.Lint.Rules

open Workflow (Document Job)
open Text (Pattern)

inductive RunnerFamily
  | macOS
  | windows
  deriving DecidableEq, Repr

namespace RunnerFamily

def all : List RunnerFamily := [.macOS, .windows]

def tag : RunnerFamily → String
  | .macOS => "MACOS_10X"
  | .windows => "WINDOWS_2X"

def label : RunnerFamily → String
  | .macOS => "macOS"
  | .windows => "Windows"

def costMultiplier : RunnerFamily → Nat
  | .macOS => 10
  | .windows => 2

def isNamedBy (f : RunnerFamily) (label : String) : Bool :=
  match f with
  | .macOS => Text.containsLowered label "macos"
  | .windows => Text.containsLowered label "windows"

end RunnerFamily

def isSelfHosted (label : String) : Bool :=
  label.toList.map Char.toLower = "self-hosted".toList

/-- Runners of one's own cost nothing. -/
def runsOnFamily (j : Job) (f : RunnerFamily) : Bool :=
  !j.runsOn.any isSelfHosted && j.runsOn.any f.isNamedBy

def protectedPattern : Pattern :=
  .chain [.wordEdge, .words ["main", "master", "default_branch", "schedule"], .wordEdge]

def isRestricted (j : Job) : Bool :=
  match j.condition with
  | some condition => protectedPattern.occursIn condition
  | none => false

/-- Whether jobs may run for any branch: a push that does not name a protected branch starts them,
or a pull request starts one that has no such condition. -/
def runsOnAllBranches (d : Document) (jobs : List Job) : Bool :=
  (match d.trigger? .push with
    | some push => !push.filters.namesProtectedBranch
    | none => false) ||
  (d.hasTrigger .pullRequest && jobs.any (!isRestricted ·))

def expensiveRunnerOf (d : Document) (f : RunnerFamily) : Option Detection :=
  match d.jobs.filter (runsOnFamily · f) with
  | [] => none
  | jobs =>
    let subject := f.label ++ " runners (" ++ toString f.costMultiplier ++
      "x Linux cost) in jobs [" ++ Text.joined ", " (jobs.map (·.id)) ++ "] "
    let detection :=
      if runsOnAllBranches d jobs then Detection.warning (subject ++ "run on all branches")
      else Detection.info (subject ++ "limited to protected branch")
    some (detection.withTag f.tag)

def expensiveRunner (d : Document) : List Detection :=
  RunnerFamily.all.filterMap (expensiveRunnerOf d)

end WorkflowAudit.Lint.Rules
