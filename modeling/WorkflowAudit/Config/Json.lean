import WorkflowAudit.Config.Settings
import WorkflowAudit.Json.Decode

namespace WorkflowAudit.Config.Settings

def names : List String :=
  ["window_days", "run_limit", "top_n", "schedule_threshold", "concurrency", "push_dominant_ratio",
    "push_dominant_min_runs", "failure_ratio", "cancel_ratio", "min_runs"]

def toJson (s : Settings) : Json :=
  .obj [("window_days", .ofNat s.windowDays), ("run_limit", .ofNat s.runLimit),
    ("top_n", .ofNat s.topN), ("schedule_threshold", .ofNat s.scheduleThreshold),
    ("concurrency", .ofNat s.concurrency), ("push_dominant_ratio", .ofFloat s.pushDominantRatio),
    ("push_dominant_min_runs", .ofNat s.pushDominantMinRuns),
    ("failure_ratio", .ofFloat s.failureRatio), ("cancel_ratio", .ofFloat s.cancelRatio),
    ("min_runs", .ofNat s.minRuns)]

def ofJson? (j : Json) : Option Settings := do
  let fields ← j.record? names names.length
  let count (name : String) (value : Nat) := Json.defaultField? fields name value Json.nat64?
  let ratio (name : String) (value : Float) := Json.defaultField? fields name value Json.float?
  return ⟨← Json.defaultField? fields "window_days" standard.windowDays Json.nat32?,
    ← count "run_limit" standard.runLimit, ← count "top_n" standard.topN,
    ← count "schedule_threshold" standard.scheduleThreshold,
    ← count "concurrency" standard.concurrency,
    ← ratio "push_dominant_ratio" standard.pushDominantRatio,
    ← count "push_dominant_min_runs" standard.pushDominantMinRuns,
    ← ratio "failure_ratio" standard.failureRatio, ← ratio "cancel_ratio" standard.cancelRatio,
    ← count "min_runs" standard.minRuns⟩

end WorkflowAudit.Config.Settings
