import WorkflowAudit.Lint.Rules.Limits
import WorkflowAudit.Lint.Rules.Runners
import WorkflowAudit.Lint.Rules.Scope
import WorkflowAudit.Lint.Rules.Steps

namespace WorkflowAudit.Lint

open Workflow (Document)

structure RuleFailure where
  rule : String
  file : String
  error : RuleError
  deriving DecidableEq, Repr

structure Evaluation where
  findings : List Finding
  failures : List RuleFailure
  deriving DecidableEq, Repr

namespace Evaluation

def empty : Evaluation := ⟨[], []⟩

def append (a b : Evaluation) : Evaluation := ⟨a.findings ++ b.findings, a.failures ++ b.failures⟩

end Evaluation

def Rule.evaluate (r : Rule) (d : Document) (file : String) : Evaluation :=
  match (r.apply d).toExcept with
  | .ok detections => ⟨detections.map (·.inFile r.id file), []⟩
  | .error error => ⟨[], [⟨r.id, file, error⟩]⟩

structure Engine where
  rules : List Rule

namespace Engine

def empty : Engine := ⟨[]⟩

def builtinRules : List Rule := [
  .ofDetections "PUSH_ALL_BRANCHES" "push trigger without branch or path filters"
    Rules.pushAllBranches,
  .ofDetections "NO_CONCURRENCY" "push/pull_request workflow without a concurrency group"
    Rules.noConcurrency,
  .ofDetections "MATRIX_NO_FAILFAST" "matrix job without an explicit fail-fast setting"
    Rules.matrixNoFailFast,
  ⟨"LARGE_MATRIX", "matrix with more than two dimensions", Rules.largeMatrix⟩,
  .ofDetections "FREQUENT_SCHEDULE" "cron schedule firing every minute or every few minutes"
    Rules.frequentSchedule,
  .ofDetections "NO_TIMEOUT" "job without timeout-minutes" Rules.noTimeout,
  .ofDetections "ARTIFACT_NO_RETENTION" "artifact upload without retention-days"
    Rules.artifactNoRetention,
  .ofDetections "OLD_CHECKOUT" "actions/checkout pinned to v1 or v2" Rules.oldCheckout,
  .ofDetections "NO_CACHE" "dependency install without any cache" Rules.noCache,
  .ofDetections "PR_ALL_EVENTS" "pull_request trigger without an event-type list"
    Rules.pullRequestAllEvents,
  .ofDetections "EXPENSIVE_RUNNER" "macOS or Windows runners outside protected branches"
    Rules.expensiveRunner]

def builtin : Engine := ⟨builtinRules⟩

def withRule (e : Engine) (r : Rule) : Engine := ⟨e.rules ++ [r]⟩

def ruleIds (e : Engine) : List String := e.rules.map (·.id)

def evaluate (e : Engine) (d : Document) (file : String) : Evaluation :=
  e.rules.foldr (fun r rest => (r.evaluate d file).append rest) .empty

end Engine

end WorkflowAudit.Lint
