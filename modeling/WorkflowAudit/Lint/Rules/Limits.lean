import WorkflowAudit.Lint.Rule
import WorkflowAudit.Text.Blank

namespace WorkflowAudit.Lint.Rules

open Workflow (Document Job)

def namingAll (offenders : List String) (detection : String → Detection) : List Detection :=
  if offenders.isEmpty then [] else [detection (Text.joined ", " offenders)]

def matrixNoFailFast (d : Document) : List Detection :=
  let jobs := d.jobs.filter fun j => j.matrix.isSome && j.failFast.isNone
  namingAll (jobs.map (·.id)) fun names =>
    .info ("Matrix without explicit \u0060fail-fast\u0060 in jobs [" ++ names ++ "]")

def hasLargeMatrix (j : Job) : Bool := j.matrix.any (2 < ·.dimensionCount)

def matrixSize? (j : Job) : Option String := do
  let matrix ← j.matrix
  let combinations ← matrix.combinations?
  return j.id ++ " (" ++ toString matrix.dimensionCount ++ " dimensions, " ++
    toString combinations ++ " combinations)"

/-- The rule crashes at a matrix that has too many combinations to be counted. -/
def largeMatrix (d : Document) : Verdict :=
  match (d.jobs.filter hasLargeMatrix).mapM matrixSize? with
  | some sizes => .detected (namingAll sizes fun names =>
      .warning ("Large matrix in jobs [" ++ names ++ "]"))
  | none => .crashed (some "attempt to multiply with overflow")

def noTimeout (d : Document) : List Detection :=
  let jobs := d.jobs.filter fun j => !j.callsWorkflow && !j.hasTimeout
  namingAll (jobs.map (·.id)) fun names =>
    .info ("No \u0060timeout-minutes\u0060 in jobs [" ++ names ++ "] (default is 360 minutes)")

def artifactNoRetention (d : Document) : List Detection :=
  if d.retentionDeclared then []
  else
    let uploads := d.steps.filter fun (_, s) => s.actionName = some "actions/upload-artifact"
    namingAll (sortedNames (uploads.map (·.1.id))) fun names =>
      .info ("Artifact upload without \u0060retention-days\u0060 in jobs [" ++ names ++
        "] (default retention is 90 days)")

end WorkflowAudit.Lint.Rules
