import WorkflowAudit.Decimal.Notation

namespace WorkflowAudit.Config

structure Settings where
  windowDays : Nat := 30
  runLimit : Nat := 100
  topN : Nat := 20
  scheduleThreshold : Nat := 20
  concurrency : Nat := 8
  pushDominantRatio : Float := 0.7
  pushDominantMinRuns : Nat := 10
  failureRatio : Float := 0.3
  cancelRatio : Float := 0.2
  minRuns : Nat := 5

namespace Settings

def standard : Settings := {}

inductive Violation
  | notPositive (field : String)
  | noRatio (field : String) (value : Float)

namespace Violation

def field : Violation → String
  | .notPositive field => field
  | .noRatio field _ => field

def reason : Violation → String
  | .notPositive _ => "must be at least 1"
  | .noRatio _ value => Decimal.Notation.plain.write value ++ " is outside [0, 1]"

end Violation

def isRatio (x : Float) : Bool := 0 ≤ x && x ≤ 1

def ratios (s : Settings) : List (String × Float) :=
  [("push_dominant_ratio", s.pushDominantRatio), ("failure_ratio", s.failureRatio),
    ("cancel_ratio", s.cancelRatio)]

def violation? (s : Settings) : Option Violation :=
  if s.windowDays = 0 then some (.notPositive "window_days")
  else if s.concurrency = 0 then some (.notPositive "concurrency")
  else (s.ratios.find? fun (_, x) => !isRatio x).map fun (field, x) => .noRatio field x

end Settings

end WorkflowAudit.Config
