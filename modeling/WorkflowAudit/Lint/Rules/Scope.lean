import WorkflowAudit.Lint.Rule
import WorkflowAudit.Text.Blank
import WorkflowAudit.Text.Split

namespace WorkflowAudit.Lint.Rules

open Workflow (Document)

def pushAllBranches (d : Document) : List Detection :=
  match d.trigger? .push with
  | none => []
  | some push =>
    if push.filters.restrictsBranchesOrPaths then []
    else [.warning
      ("Runs on every push to every branch. Add a \u0060branches\u0060, \u0060paths\u0060 or " ++
        "\u0060paths-ignore\u0060 filter to the push trigger.")]

def noConcurrency (d : Document) : List Detection :=
  if !(d.hasTrigger .push || d.hasTrigger .pullRequest) || d.hasConcurrencyGroup then []
  else [.info
    ("No concurrency group. Superseded push/PR runs keep running; add " ++
      "\u0060concurrency: \x7b group: ..., cancel-in-progress: true \x7d\u0060.")]

def pullRequestAllEvents (d : Document) : List Detection :=
  match d.trigger? .pullRequest with
  | none => []
  | some request =>
    if request.filters.types.isSome then []
    else [.info
      "pull_request trigger has no \u0060types\u0060 list and runs on every default PR event."]

def isFrequentMinute : List Char → Bool
  | ['*'] => true
  | '*' :: '/' :: digits =>
    match digits.dropWhile (· = '0') with
    | [d] => d.isDigit
    | _ => false
  | _ => false

/-- Only the first word of a cron line counts, which holds the minutes. -/
def isFrequentCron (cron : String) : Bool :=
  match Text.firstWord? cron.toList with
  | some minutes => isFrequentMinute minutes
  | none => false

def frequentSchedule (d : Document) : List Detection :=
  match d.trigger? .schedule with
  | none => []
  | some schedule =>
    match schedule.crons.filter isFrequentCron with
    | [] => []
    | frequent => [.warning
      ("Schedule fires at most every 9 minutes: " ++
        Text.joined ", " (frequent.map fun c => "'" ++ c ++ "'"))]

end WorkflowAudit.Lint.Rules
