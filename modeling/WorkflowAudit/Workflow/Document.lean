import WorkflowAudit.KeyMap

namespace WorkflowAudit.Workflow

inductive Event
  | push
  | pullRequest
  | schedule
  | dispatch
  | other (name : String)
  deriving DecidableEq, Repr

namespace Event

def ofName (name : String) : Event :=
  if name = "push" then .push
  else if name = "pull_request" then .pullRequest
  else if name = "schedule" then .schedule
  else if name = "workflow_dispatch" then .dispatch
  else .other name

def name : Event → String
  | .push => "push"
  | .pullRequest => "pull_request"
  | .schedule => "schedule"
  | .dispatch => "workflow_dispatch"
  | .other name => name

theorem name_ofName (s : String) : (ofName s).name = s := by
  unfold ofName
  split
  · simp_all [name]
  · split
    · simp_all [name]
    · split
      · simp_all [name]
      · split <;> simp_all [name]

end Event

/-- The filters of a trigger. An absent list is not an empty one. -/
structure Filters where
  branches : Option (List String) := none
  branchesIgnore : Option (List String) := none
  tags : Option (List String) := none
  paths : Option (List String) := none
  pathsIgnore : Option (List String) := none
  types : Option (List String) := none
  deriving DecidableEq, Repr

namespace Filters

def none : Filters := {}

def restrictsBranchesOrPaths (f : Filters) : Bool :=
  f.branches.isSome || f.paths.isSome || f.pathsIgnore.isSome

def namesProtectedBranch (f : Filters) : Bool :=
  match f.branches with
  | .some branches => branches.any fun b => b = "main" || b = "master"
  | .none => false

end Filters

structure Trigger where
  event : Event
  filters : Filters
  crons : List String
  deriving DecidableEq, Repr

def Trigger.bare (event : Event) : Trigger := ⟨event, .none, []⟩

structure Concurrency where
  group : String
  cancelInProgress : Option Bool
  deriving DecidableEq, Repr

inductive Timeout
  | minutes (n : Nat)
  | expression (text : String)
  deriving DecidableEq, Repr

structure Matrix where
  dimensions : KeyMap (List String)
  isDynamic : Bool
  deriving DecidableEq, Repr

namespace Matrix

def dimensionCount (m : Matrix) : Nat := m.dimensions.size

def times? (m n : Nat) : Option Nat := if m * n < Nat.pow 2 64 then some (m * n) else none

/-- Counted dimension by dimension; there is no count if one of the products on the way overflows. -/
def combinations? (m : Matrix) : Option Nat :=
  (m.dimensions.values.map List.length).foldlM times? 1

end Matrix

structure Step where
  name : Option String
  uses : Option String
  run : Option String
  params : KeyMap String
  deriving DecidableEq, Repr

namespace Step

def actionName (s : Step) : Option String :=
  s.uses.map fun uses => String.ofList (uses.toList.takeWhile (· ≠ '@'))

def label (s : Step) : String := (s.name <|> s.uses).getD "unnamed step"

end Step

structure Job where
  id : String
  name : Option String
  runsOn : List String
  condition : Option String
  timeout : Option Timeout
  concurrency : Option Concurrency
  matrix : Option Matrix
  failFast : Option Bool
  uses : Option String
  steps : List Step
  deriving DecidableEq, Repr

namespace Job

def timeoutMinutes (j : Job) : Option Nat :=
  match j.timeout with
  | some (.minutes n) => some n
  | _ => none

def hasTimeout (j : Job) : Bool := j.timeout.isSome

def callsWorkflow (j : Job) : Bool := j.uses.isSome

def matrixDimensions (j : Job) : Option (KeyMap (List String)) := j.matrix.map (·.dimensions)

end Job

structure Document where
  name : Option String
  triggers : List Trigger
  concurrency : Option Concurrency
  jobs : List Job
  retentionDeclared : Bool
  degraded : Bool
  diagnostics : List String
  deriving DecidableEq, Repr

namespace Document

def empty : Document := ⟨none, [], none, [], false, false, []⟩

def trigger? (d : Document) (e : Event) : Option Trigger := d.triggers.find? (·.event = e)

def hasTrigger (d : Document) (e : Event) : Bool := (d.trigger? e).isSome

def filters (d : Document) (e : Event) : Filters :=
  match d.trigger? e with
  | some t => t.filters
  | none => .none

def hasConcurrencyGroup (d : Document) : Bool :=
  d.concurrency.isSome || d.jobs.any (·.concurrency.isSome)

def job? (d : Document) (id : String) : Option Job := d.jobs.find? (·.id = id)

def steps (d : Document) : List (Job × Step) :=
  d.jobs.flatMap fun j => j.steps.map fun s => (j, s)

def jobCount (d : Document) : Nat := d.jobs.length

def stepCount (d : Document) : Nat := (d.jobs.map (·.steps.length)).foldr (· + ·) 0

end Document

end WorkflowAudit.Workflow
