import WorkflowAudit.Json.Decode
import WorkflowAudit.Runs.Stats

namespace WorkflowAudit.Runs

namespace Status

def toJson : Status → Json
  | .queued => .str "queued"
  | .inProgress => .str "in_progress"
  | .completed => .str "completed"
  | .other => .str "other"

def ofJson? (j : Json) : Option Status :=
  j.plainChoice?.map fun
    | "queued" => .queued
    | "in_progress" => .inProgress
    | "completed" => .completed
    | _ => .other

end Status

namespace Conclusion

def toJson : Conclusion → Json
  | .success => .str "success"
  | .failure => .str "failure"
  | .cancelled => .str "cancelled"
  | .skipped => .str "skipped"
  | .timedOut => .str "timed_out"
  | .actionRequired => .str "action_required"
  | .neutral => .str "neutral"
  | .stale => .str "stale"
  | .startupFailure => .str "startup_failure"
  | .other => .str "other"

def ofJson? (j : Json) : Option Conclusion :=
  j.plainChoice?.map fun
    | "success" => .success
    | "failure" => .failure
    | "cancelled" => .cancelled
    | "skipped" => .skipped
    | "timed_out" => .timedOut
    | "action_required" => .actionRequired
    | "neutral" => .neutral
    | "stale" => .stale
    | "startup_failure" => .startupFailure
    | _ => .other

end Conclusion

namespace Record

def toJson (r : Record) : Json :=
  .obj [("repository", .str r.repository), ("workflow", .str r.workflow),
    ("created_at", .ofInstant r.createdAt), ("status", r.status.toJson),
    ("conclusion", .ofOption Conclusion.toJson r.conclusion), ("trigger_event", .str r.event)]

def ofJson? (j : Json) : Option Record := do
  let fields ← j.record? ["repository", "workflow", "created_at", "status", "conclusion",
    "trigger_event"] 0
  return ⟨← Json.field? fields "repository" Json.string?,
    ← Json.field? fields "workflow" Json.string?,
    ← Json.field? fields "created_at" Json.instant?, ← Json.field? fields "status" Status.ofJson?,
    ← Json.nullableField? fields "conclusion" Conclusion.ofJson?,
    ← Json.field? fields "trigger_event" Json.string?⟩

end Record

namespace EventCounts

def toJson (c : EventCounts) : Json :=
  .obj [("push", .ofNat c.push), ("pull_request", .ofNat c.pullRequest),
    ("schedule", .ofNat c.schedule), ("workflow_dispatch", .ofNat c.dispatch),
    ("other", .ofNat c.other)]

def ofJson? (j : Json) : Option EventCounts := do
  let fields ← j.record? ["push", "pull_request", "schedule", "workflow_dispatch", "other"] 0
  let count (name : String) := Json.field? fields name Json.nat64?
  return ⟨← count "push", ← count "pull_request", ← count "schedule", ← count "workflow_dispatch",
    ← count "other"⟩

end EventCounts

namespace Stats

def toJson (s : Stats) : Json :=
  .obj [("repository", .str s.repository), ("workflow", .str s.workflow),
    ("window_start", .ofInstant s.windowStart), ("window_end", .ofInstant s.windowEnd),
    ("total", .ofNat s.total), ("failed", .ofNat s.failed), ("cancelled", .ofNat s.cancelled),
    ("triggers", s.events.toJson)]

def ofJson? (j : Json) : Option Stats := do
  let fields ← j.record? ["repository", "workflow", "window_start", "window_end", "total", "failed",
    "cancelled", "triggers"] 0
  let count (name : String) := Json.field? fields name Json.nat64?
  return ⟨← Json.field? fields "repository" Json.string?,
    ← Json.field? fields "workflow" Json.string?,
    ← Json.field? fields "window_start" Json.instant?, ← Json.field? fields "window_end" Json.instant?,
    ← count "total", ← count "failed", ← count "cancelled",
    ← Json.field? fields "triggers" EventCounts.ofJson?⟩

end Stats

namespace StatsRow

def toJson (r : StatsRow) : Json :=
  .obj [("repository", .str r.repository), ("workflow", .str r.workflow), ("total", .ofNat r.total),
    ("failed", .ofNat r.failed), ("cancelled", .ofNat r.cancelled), ("push", .ofNat r.push),
    ("pull_request", .ofNat r.pullRequest), ("schedule", .ofNat r.schedule),
    ("workflow_dispatch", .ofNat r.dispatch), ("other", .ofNat r.other)]

def ofJson? (j : Json) : Option StatsRow := do
  let fields ← j.record? ["repository", "workflow", "total", "failed", "cancelled", "push",
    "pull_request", "schedule", "workflow_dispatch", "other"] 0
  let count (name : String) := Json.field? fields name Json.nat64?
  return ⟨← Json.field? fields "repository" Json.string?,
    ← Json.field? fields "workflow" Json.string?,
    ← count "total", ← count "failed", ← count "cancelled", ← count "push",
    ← count "pull_request", ← count "schedule", ← count "workflow_dispatch", ← count "other"⟩

end StatsRow

end WorkflowAudit.Runs
