import WorkflowAudit.Proofs.Lint.Offences
import WorkflowAudit.Proofs.Workflow.CountLaws

/-! The table of the rules that come with the library: when each reports something, how severe that
is and whom it names. -/

namespace WorkflowAudit.Lint

open Rules (RunnerFamily)
open Workflow (Document Event Job Step)

/-- One line of the table: when a rule reports something, how severe it is and what it says. -/
structure Row where
  rule : String
  severity : Severity
  tag : Option String
  Says : Document → String → Prop

def TriggersAgree (d : Document) : Prop :=
  ∀ t ∈ d.triggers, ∀ u ∈ d.triggers, t.event = u.event → t = u

def OnAllBranches (d : Document) (f : RunnerFamily) : Prop :=
  (∃ t ∈ d.triggers, t.event = .push ∧ ¬NamesProtectedBranch t.filters) ∨
    (∃ t ∈ d.triggers, t.event = .pullRequest) ∧ ∃ j ∈ d.jobs, RunsOnFamily f j ∧ ¬Restricted j

namespace Row

def ofTrigger (rule : String) (severity : Severity) (event : Event)
    (Lacks : Workflow.Filters → Prop) (text : String) : Row where
  rule
  severity
  tag := none
  Says d m := (∃ t ∈ d.triggers, t.event = event ∧ Lacks t.filters) ∧ m = text

def ofJobs (rule : String) (severity : Severity) (Offends : Job → Prop) [DecidablePred Offends]
    (describe : Job → String) (text : String → String) : Row where
  rule
  severity
  tag := none
  Says d m := (∃ j ∈ d.jobs, Offends j) ∧
    m = text (Text.joined ", " ((d.jobs.filter (Offends ·)).map describe))

/-- A row on the steps of one kind, unless something in the document speaks against it. It names
something of each step, in order and once. -/
def ofSteps (rule : String) (Fires : Document → Prop) (Offends : Step → Prop)
    (Names : Job → Step → String → Prop) (text : String → String) : Row where
  rule
  severity := .info
  tag := none
  Says d m := Fires d ∧ (∃ j ∈ d.jobs, ∃ s ∈ j.steps, Offends s) ∧
    ∃ names : List String, names.Pairwise (· < ·) ∧
      (∀ n, n ∈ names ↔ ∃ j ∈ d.jobs, ∃ s ∈ j.steps, Offends s ∧ Names j s n) ∧
      m = text (Text.joined ", " names)

def noConcurrency : Row where
  rule := "NO_CONCURRENCY"
  severity := .info
  tag := none
  Says d m := (∃ t ∈ d.triggers, t.event = .push ∨ t.event = .pullRequest) ∧
    d.concurrency = none ∧ (∀ j ∈ d.jobs, j.concurrency = none) ∧
    m = "No concurrency group. Superseded push/PR runs keep running; add " ++
      "\u0060concurrency: \x7b group: ..., cancel-in-progress: true \x7d\u0060."

def frequentSchedule : Row where
  rule := "FREQUENT_SCHEDULE"
  severity := .warning
  tag := none
  Says d m := ∃ t ∈ d.triggers, t.event = .schedule ∧ (∃ c ∈ t.crons, FrequentCron c) ∧
    m = "Schedule fires at most every 9 minutes: " ++
      Text.joined ", " ((t.crons.filter (FrequentCron ·)).map fun c => "'" ++ c ++ "'")

def expensiveRunner (f : RunnerFamily) (tag subject : String) (onAll : Bool) : Row where
  rule := "EXPENSIVE_RUNNER"
  severity := if onAll then .warning else .info
  tag := some tag
  Says d m := (∃ j ∈ d.jobs, RunsOnFamily f j) ∧ (OnAllBranches d f ↔ onAll = true) ∧
    m = subject ++ " in jobs [" ++
      Text.joined ", " ((d.jobs.filter (RunsOnFamily f ·)).map (·.id)) ++ "] " ++
      if onAll then "run on all branches" else "limited to protected branch"

inductive Detects (row : Row) (d : Document) : List Detection → Prop
  | fires {m : String} : row.Says d m → Detects row d [⟨row.severity, m, row.tag⟩]
  | silent : (∀ m, ¬row.Says d m) → Detects row d []

end Row

inductive Reported (d : Document) (file : String) : List Row → List Finding → Prop
  | nil : Reported d file [] []
  | cons {row : Row} {rows : List Row} {detections : List Detection} {findings : List Finding} :
    row.Detects d detections → Reported d file rows findings →
    Reported d file (row :: rows) (detections.map (·.inFile row.rule file) ++ findings)

def HasLargeMatrix (j : Job) : Prop := ∃ m, j.matrix = some m ∧ 2 < m.dimensions.entries.length

def CountsLargeMatrices (d : Document) : Prop :=
  ∀ j ∈ d.jobs, ∀ m, j.matrix = some m → 2 < m.dimensions.entries.length →
    Workflow.Matrix.StaysInWord (m.dimensions.values.map List.length)

def describeMatrix (j : Job) : String :=
  match j.matrix with
  | some m => j.id ++ " (" ++ toString m.dimensions.entries.length ++ " dimensions, " ++
      toString (m.dimensions.values.map List.length).prod ++ " combinations)"
  | none => j.id

instance : DecidablePred HasLargeMatrix := fun j =>
  match h : j.matrix with
  | some m => decidable_of_iff (2 < m.dimensions.entries.length) (by simp [HasLargeMatrix, h])
  | none => isFalse (by simp [HasLargeMatrix, h])

def ruleTable : List Row := [
  .ofTrigger "PUSH_ALL_BRANCHES" .warning .push
    (fun f => f.branches = none ∧ f.paths = none ∧ f.pathsIgnore = none)
    ("Runs on every push to every branch. Add a \u0060branches\u0060, \u0060paths\u0060 or " ++
      "\u0060paths-ignore\u0060 filter to the push trigger."),
  .noConcurrency,
  .ofJobs "MATRIX_NO_FAILFAST" .info (fun j => j.matrix ≠ none ∧ j.failFast = none) (·.id)
    fun names => "Matrix without explicit \u0060fail-fast\u0060 in jobs [" ++ names ++ "]",
  .ofJobs "LARGE_MATRIX" .warning HasLargeMatrix describeMatrix fun names =>
    "Large matrix in jobs [" ++ names ++ "]",
  .frequentSchedule,
  .ofJobs "NO_TIMEOUT" .info (fun j => j.uses = none ∧ j.timeout = none) (·.id) fun names =>
    "No \u0060timeout-minutes\u0060 in jobs [" ++ names ++ "] (default is 360 minutes)",
  .ofSteps "ARTIFACT_NO_RETENTION" (·.retentionDeclared = false)
    (·.actionName = some "actions/upload-artifact") (fun j _ n => j.id = n) fun names =>
    "Artifact upload without \u0060retention-days\u0060 in jobs [" ++ names ++
      "] (default retention is 90 days)",
  .ofSteps "OLD_CHECKOUT" (fun _ => True) (fun s => ∃ uses, s.uses = some uses ∧ OldCheckout uses)
    (fun _ s n => s.uses = some n) fun names => "Outdated checkout action: " ++ names,
  .ofSteps "NO_CACHE" (fun d => ∀ j ∈ d.jobs, ∀ s ∈ j.steps, ¬ProvidesCache s) InstallsPackages
    (fun j _ n => j.id = n) fun names =>
    "Dependencies installed without caching in jobs [" ++ names ++ "]",
  .ofTrigger "PR_ALL_EVENTS" .info .pullRequest (·.types = none)
    "pull_request trigger has no \u0060types\u0060 list and runs on every default PR event.",
  .expensiveRunner .macOS "MACOS_10X" "macOS runners (10x Linux cost)" true,
  .expensiveRunner .macOS "MACOS_10X" "macOS runners (10x Linux cost)" false,
  .expensiveRunner .windows "WINDOWS_2X" "Windows runners (2x Linux cost)" true,
  .expensiveRunner .windows "WINDOWS_2X" "Windows runners (2x Linux cost)" false]

end WorkflowAudit.Lint
