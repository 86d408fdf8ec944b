import WorkflowAudit.Json.Decode
import WorkflowAudit.Workflow.Document

namespace WorkflowAudit.Workflow

namespace Event

def toJson : Event → Json
  | .other name => .obj [("other", .str name)]
  | e => .str e.name

def ofJson? (j : Json) : Option Event :=
  match j.choice? with
  | some ("other", some (.str name)) => some (.other name)
  | _ => match j.plainChoice? with
    | some "push" => some .push
    | some "pull_request" => some .pullRequest
    | some "schedule" => some .schedule
    | some "workflow_dispatch" => some .dispatch
    | _ => none

end Event

def strings? : Json → Option (List String) := Json.listOf? Json.string?

namespace Filters

def toJson (f : Filters) : Json :=
  let list := Json.ofOption Json.ofStrings
  .obj [("branches", list f.branches), ("branches_ignore", list f.branchesIgnore),
    ("tags", list f.tags), ("paths", list f.paths), ("paths_ignore", list f.pathsIgnore),
    ("types", list f.types)]

def ofJson? (j : Json) : Option Filters := do
  let fields ← j.record? ["branches", "branches_ignore", "tags", "paths", "paths_ignore", "types"] 0
  let list (name : String) := Json.nullableField? fields name strings?
  return ⟨← list "branches", ← list "branches_ignore", ← list "tags", ← list "paths",
    ← list "paths_ignore", ← list "types"⟩

end Filters

namespace Trigger

def toJson (t : Trigger) : Json :=
  .obj [("kind", t.event.toJson), ("filters", t.filters.toJson), ("crons", .ofStrings t.crons)]

def ofJson? (j : Json) : Option Trigger := do
  let fields ← j.record? ["kind", "filters", "crons"] 0
  return ⟨← Json.field? fields "kind" Event.ofJson?, ← Json.field? fields "filters" Filters.ofJson?,
    ← Json.field? fields "crons" strings?⟩

end Trigger

namespace Concurrency

def toJson (c : Concurrency) : Json :=
  .obj [("group", .str c.group), ("cancel_in_progress", .ofOption .bool c.cancelInProgress)]

def ofJson? (j : Json) : Option Concurrency := do
  let fields ← j.record? ["group", "cancel_in_progress"] 0
  return ⟨← Json.field? fields "group" Json.string?,
    ← Json.nullableField? fields "cancel_in_progress" Json.bool?⟩

end Concurrency

namespace Timeout

def toJson : Timeout → Json
  | .minutes n => .obj [("Minutes", .ofNat n)]
  | .expression text => .obj [("Expression", .str text)]

def ofJson? (j : Json) : Option Timeout :=
  match j.choice? with
  | some ("Minutes", some j) => j.nat64?.map .minutes
  | some ("Expression", some j) => j.string?.map .expression
  | _ => none

end Timeout

namespace Matrix

def toJson (m : Matrix) : Json :=
  .obj [("dimensions", .ofMap .ofStrings m.dimensions), ("dynamic", .bool m.isDynamic)]

def ofJson? (j : Json) : Option Matrix := do
  let fields ← j.record? ["dimensions", "dynamic"] 0
  return ⟨← Json.field? fields "dimensions" (Json.mapOf? strings?),
    ← Json.field? fields "dynamic" Json.bool?⟩

end Matrix

namespace Step

def toJson (s : Step) : Json :=
  .obj [("name", .ofOption .str s.name), ("uses", .ofOption .str s.uses),
    ("run", .ofOption .str s.run), ("with", .ofMap .str s.params)]

def ofJson? (j : Json) : Option Step := do
  let fields ← j.record? ["name", "uses", "run", "with"] 0
  let text (name : String) := Json.nullableField? fields name Json.string?
  return ⟨← text "name", ← text "uses", ← text "run",
    ← Json.field? fields "with" (Json.mapOf? Json.string?)⟩

end Step

namespace Job

def toJson (j : Job) : Json :=
  .obj [("id", .str j.id), ("name", .ofOption .str j.name), ("runs_on", .ofStrings j.runsOn),
    ("condition", .ofOption .str j.condition), ("timeout", .ofOption Timeout.toJson j.timeout),
    ("concurrency", .ofOption Concurrency.toJson j.concurrency),
    ("matrix", .ofOption Matrix.toJson j.matrix), ("fail_fast", .ofOption .bool j.failFast),
    ("uses", .ofOption .str j.uses), ("steps", .arr (j.steps.map Step.toJson))]

def ofJson? (j : Json) : Option Job := do
  let fields ← j.record? ["id", "name", "runs_on", "condition", "timeout", "concurrency", "matrix",
    "fail_fast", "uses", "steps"] 0
  let text (name : String) := Json.nullableField? fields name Json.string?
  return ⟨← Json.field? fields "id" Json.string?, ← text "name",
    ← Json.field? fields "runs_on" strings?,
    ← text "condition", ← Json.nullableField? fields "timeout" Timeout.ofJson?,
    ← Json.nullableField? fields "concurrency" Concurrency.ofJson?,
    ← Json.nullableField? fields "matrix" Matrix.ofJson?,
    ← Json.nullableField? fields "fail_fast" Json.bool?, ← text "uses",
    ← Json.field? fields "steps" (Json.listOf? Step.ofJson?)⟩

end Job

namespace Document

def toJson (d : Document) : Json :=
  .obj [("name", .ofOption .str d.name), ("triggers", .arr (d.triggers.map Trigger.toJson)),
    ("concurrency", .ofOption Concurrency.toJson d.concurrency),
    ("jobs", .arr (d.jobs.map Job.toJson)), ("retention_declared", .bool d.retentionDeclared),
    ("degraded", .bool d.degraded), ("diagnostics", .ofStrings d.diagnostics)]

def ofJson? (j : Json) : Option Document := do
  let fields ← j.record? ["name", "triggers", "concurrency", "jobs", "retention_declared",
    "degraded", "diagnostics"] 0
  return ⟨← Json.nullableField? fields "name" Json.string?,
    ← Json.field? fields "triggers" (Json.listOf? Trigger.ofJson?),
    ← Json.nullableField? fields "concurrency" Concurrency.ofJson?,
    ← Json.field? fields "jobs" (Json.listOf? Job.ofJson?),
    ← Json.field? fields "retention_declared" Json.bool?,
    ← Json.field? fields "degraded" Json.bool?, ← Json.field? fields "diagnostics" strings?⟩

end Document

end WorkflowAudit.Workflow
