import WorkflowAudit.Json.Decode
import WorkflowAudit.Runs.Json

namespace WorkflowAudit.Hosting.GitHub

structure Run where
  id : Nat
  name : Option String
  path : Option String
  status : Option Runs.Status
  conclusion : Option Runs.Conclusion
  createdAt : Time.Instant
  event : String
  deriving DecidableEq, Repr

namespace Run

def workflow (r : Run) : String :=
  match r.name with
  | some name => if name.isEmpty then r.path.getD "unknown" else name
  | none => r.path.getD "unknown"

def toRecord (r : Run) (repository : String) : Runs.Record :=
  ⟨repository, r.workflow, r.createdAt, r.status.getD .other, r.conclusion, r.event⟩

def ofJson? (j : Json) : Option Run := do
  let fields ← j.record? ["id", "name", "path", "status", "conclusion", "created_at", "event"] 0
  return ⟨← Json.field? fields "id" Json.nat64?, ← Json.nullableField? fields "name" Json.string?,
    ← Json.nullableField? fields "path" Json.string?,
    ← Json.nullableField? fields "status" Runs.Status.ofJson?,
    ← Json.nullableField? fields "conclusion" Runs.Conclusion.ofJson?,
    ← Json.field? fields "created_at" Json.instant?, ← Json.field? fields "event" Json.string?⟩

end Run

end WorkflowAudit.Hosting.GitHub
