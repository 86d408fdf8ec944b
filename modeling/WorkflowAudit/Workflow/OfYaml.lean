import WorkflowAudit.Workflow.Document
import WorkflowAudit.Workflow.Issue
import WorkflowAudit.Workflow.Reference
import WorkflowAudit.Yaml.Value.Printer

/-! Documents out of YAML values. Settings of an unexpected kind are left out; only jobs that are
no mappings are reported. -/

namespace WorkflowAudit

namespace Yaml.Value

def scalar? : Value → Option String
  | .string s => some s
  | .number n => some n.write
  | .bool b => some (if b then "true" else "false")
  | _ => none

def scalars : Value → List String
  | .sequence items => items.filterMap scalar?
  | v => v.scalar?.toList

def text (v : Value) : String := v.scalar?.getD v.write

def scalarAt? (v : Value) (key : String) : Option String := (v.get? key).bind scalar?

mutual

/-- Whether a key stands in some mapping of the value. Keys are not searched themselves, nor is
what has a tag. -/
def declares (key : String) : Value → Bool
  | .mapping entries => declaresInEntries key entries
  | .sequence items => declaresInItems key items
  | _ => false

def declaresInEntries (key : String) : Mapping → Bool
  | [] => false
  | (k, v) :: rest => k.asString? = some key || declares key v || declaresInEntries key rest

def declaresInItems (key : String) : List Value → Bool
  | [] => false
  | v :: rest => declares key v || declaresInItems key rest

end

end Yaml.Value

namespace Workflow

open Yaml (Value Mapping)

namespace Filters

def ofYaml (v : Value) : Filters :=
  let list (key : String) := (v.get? key).map Value.scalars
  { branches := list "branches"
    branchesIgnore := list "branches-ignore"
    tags := list "tags"
    paths := list "paths"
    pathsIgnore := list "paths-ignore"
    types := list "types" }

end Filters

def cronsOfYaml : Value → List String
  | .sequence entries => entries.filterMap (·.scalarAt? "cron")
  | .mapping entries => ((Value.mapping entries).scalarAt? "cron").toList
  | _ => []

namespace Trigger

def ofYaml (name : String) (v : Value) : Trigger :=
  let event := Event.ofName name
  ⟨event, .ofYaml v, if event = .schedule then cronsOfYaml v else []⟩

def listOfYaml : Value → List Trigger
  | .string name => [.bare (.ofName name)]
  | .sequence items => (items.filterMap Value.asString?).map fun name => .bare (.ofName name)
  | .mapping entries => entries.filterMap fun (k, v) => k.asString?.map fun name => ofYaml name v
  | _ => []

end Trigger

def Concurrency.ofYaml? : Value → Option Concurrency
  | .string group => some ⟨group, none⟩
  | .mapping entries =>
    let v := Value.mapping entries
    (v.scalarAt? "group").map fun group =>
      ⟨group, (v.get? "cancel-in-progress").bind Value.asBool?⟩
  | _ => none

def Timeout.ofYaml? : Value → Option Timeout
  | .number (.int i) => some (.minutes i.toNat)
  | .number (.float x) => some (.minutes (Decimal.toNatWithin 64 x))
  | .string s =>
    match Text.natural? 64 (Text.trim s.toList) with
    | some n => some (.minutes n)
    | none => some (.expression s)
  | _ => none

namespace Matrix

/-- A dimension is a list, or an expression whose values are not known yet. -/
def dimensionOfYaml? (key value : Value) : Option (String × List String) := do
  let name ← key.asString?
  guard (name ≠ "include" && name ≠ "exclude")
  match value with
  | .sequence items => return (name, items.filterMap Value.scalar?)
  | .string _ => return (name, [])
  | _ => none

def ofYaml? : Value → Option Matrix
  | .string _ => some ⟨.empty, true⟩
  | .mapping entries =>
    some ⟨.ofList (entries.filterMap fun (k, v) => dimensionOfYaml? k v), false⟩
  | _ => none

end Matrix

def writtenLabels : Value → List String
  | .mapping entries =>
    let v := Value.mapping entries
    ((v.get? "labels").map Value.scalars).getD [] ++ (v.scalarAt? "group").toList
  | v => v.scalars

def dimensionValues (matrix : Value) (name : String) : List String :=
  ((matrix.get? name).map Value.scalars).getD [] ++
    (((matrix.get? "include").bind Value.asSequence?).getD []).filterMap (·.scalarAt? name)

/-- A label that refers to the matrix stands for the values of the dimension, if it has any. -/
def expandLabel (matrix : Option Value) (label : String) : List String :=
  match matrixReference? label, matrix with
  | some name, some matrix =>
    match dimensionValues matrix name with
    | [] => [label]
    | values => values
  | _, _ => [label]

def runnerLabels (runsOn : Value) (strategy : Option Value) : List String :=
  ((writtenLabels runsOn).flatMap (expandLabel (strategy.bind (·.get? "matrix")))).eraseDups

namespace Step

def ofYaml (v : Value) : Step :=
  { name := v.scalarAt? "name"
    uses := v.scalarAt? "uses"
    run := v.scalarAt? "run"
    params := .ofList ((((v.get? "with").bind Value.asMapping?).getD []).filterMap
      fun (k, v) => k.scalar?.map fun name => (name, v.text)) }

end Step

namespace Job

def failFastOfYaml? : Value → Option Bool
  | .bool b => some b
  | .string "true" => some true
  | .string "false" => some false
  | _ => none

def ofYaml (id : String) (v : Value) : Job :=
  let strategy := v.get? "strategy"
  { id
    name := v.scalarAt? "name"
    runsOn := match v.get? "runs-on" with
      | some labels => runnerLabels labels strategy
      | none => []
    condition := v.scalarAt? "if"
    timeout := (v.get? "timeout-minutes").bind Timeout.ofYaml?
    concurrency := (v.get? "concurrency").bind Concurrency.ofYaml?
    matrix := (strategy.bind (·.get? "matrix")).bind Matrix.ofYaml?
    failFast := (strategy.bind (·.get? "fail-fast")).bind failFastOfYaml?
    uses := v.scalarAt? "uses"
    steps := ((((v.get? "steps").bind Value.asSequence?).getD []).filter Value.isMapping).map
      Step.ofYaml }

/-- A job of a jobs section, or what is wrong with it. Keys that are no scalars are passed over. -/
def entryOfYaml (key value : Value) : Option (Except Issue Job) :=
  key.scalar?.map fun id =>
    match value with
    | .mapping _ => .ok (ofYaml id value)
    | _ => .error (.jobNotMapping id)

end Job

def jobsOfYaml : Option Value → List Job × List Issue
  | some (.mapping entries) =>
    let results := entries.filterMap fun (k, v) => Job.entryOfYaml k v
    (results.filterMap fun
        | .ok job => some job
        | .error _ => none,
      results.filterMap fun
        | .ok _ => none
        | .error issue => some issue)
  | some _ => ([], [.jobsNotMapping])
  | none => ([], [.noJobs])

/-- The value of the first key that is `on`, or the truth value other readers take it for. -/
def triggerSection? : Mapping → Option Value
  | [] => none
  | (.string "on", v) :: _ => some v
  | (.bool true, v) :: _ => some v
  | _ :: rest => triggerSection? rest

namespace Document

def withIssues (d : Document) (issues : List Issue) : Document :=
  { d with degraded := issues.any Issue.isLoss, diagnostics := issues.map Issue.message }

def ofYaml (earlier : List Issue) (root : Value) : Document :=
  match root.asMapping? with
  | some entries =>
    let (jobs, issues) := jobsOfYaml (root.get? "jobs")
    let document : Document := { empty with
      name := root.scalarAt? "name"
      triggers := ((triggerSection? entries).map Trigger.listOfYaml).getD []
      concurrency := (root.get? "concurrency").bind Concurrency.ofYaml?
      jobs
      retentionDeclared := root.declares "retention-days" }
    document.withIssues (earlier ++ issues)
  | none =>
    match root.untagged with
    | .null => empty.withIssues earlier
    | _ => empty.withIssues (earlier ++ [.rootNotMapping])

end Document

end Workflow

end WorkflowAudit
