import WorkflowAudit.Runs.Record

namespace WorkflowAudit.Runs

structure EventCounts where
  push : Nat
  pullRequest : Nat
  schedule : Nat
  dispatch : Nat
  other : Nat
  deriving DecidableEq, Repr

namespace EventCounts

def zero : EventCounts := ⟨0, 0, 0, 0, 0⟩

def add (c : EventCounts) (event : String) : EventCounts :=
  if event = "push" then { c with push := c.push + 1 }
  else if event = "pull_request" then { c with pullRequest := c.pullRequest + 1 }
  else if event = "schedule" then { c with schedule := c.schedule + 1 }
  else if event = "workflow_dispatch" then { c with dispatch := c.dispatch + 1 }
  else { c with other := c.other + 1 }

def total (c : EventCounts) : Nat := c.push + c.pullRequest + c.schedule + c.dispatch + c.other

@[simp] theorem total_add (c : EventCounts) (event : String) :
    (c.add event).total = c.total + 1 := by
  simp only [add, total]
  repeat' split
  all_goals simp only; omega

end EventCounts

structure Stats where
  repository : String
  workflow : String
  windowStart : Time.Instant
  windowEnd : Time.Instant
  total : Nat
  failed : Nat
  cancelled : Nat
  events : EventCounts
  deriving DecidableEq, Repr

namespace Stats

def ratioOf (count total : Nat) : Float :=
  if total = 0 then 0 else count.toUInt64.toFloat / total.toUInt64.toFloat

def failureRate (s : Stats) : Float := ratioOf s.failed s.total

def cancellationRate (s : Stats) : Float := ratioOf s.cancelled s.total

def pushFraction (s : Stats) : Float := ratioOf s.events.push s.total

end Stats

structure StatsRow where
  repository : String
  workflow : String
  total : Nat
  failed : Nat
  cancelled : Nat
  push : Nat
  pullRequest : Nat
  schedule : Nat
  dispatch : Nat
  other : Nat
  deriving DecidableEq, Repr

def Stats.row (s : Stats) : StatsRow :=
  ⟨s.repository, s.workflow, s.total, s.failed, s.cancelled, s.events.push, s.events.pullRequest,
    s.events.schedule, s.events.dispatch, s.events.other⟩

end WorkflowAudit.Runs
