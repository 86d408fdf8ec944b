import WorkflowAudit.Decimal.Binary
import WorkflowAudit.Report.Options
import WorkflowAudit.Runs.Stats

namespace WorkflowAudit.Report

open Runs (Stats)

structure Entry where
  repository : String
  workflow : String
  total : Nat
  count : Nat
  metric : Float

namespace Entry

def ofStats (s : Stats) (count : Nat) (metric : Float) : Entry :=
  ⟨s.repository, s.workflow, s.total, count, metric⟩

def isBefore (a b : Entry) : Bool := Decimal.orderKey b.metric ≤ Decimal.orderKey a.metric

end Entry

def rank (entries : List Entry) : List Entry := entries.mergeSort Entry.isBefore

def metricOfCount (n : Nat) : Float := n.toUInt64.toFloat

def busiest (topN : Nat) (stats : List Stats) : List Entry :=
  (rank (stats.map fun s => .ofStats s s.total (metricOfCount s.total))).take topN

def scheduleHeavy (threshold : Nat) (stats : List Stats) : List Entry :=
  rank ((stats.filter fun s => threshold < s.events.schedule).map fun s =>
    .ofStats s s.events.schedule (metricOfCount s.events.schedule))

def above (ratio : Float) (minRuns : Nat) (fraction : Stats → Float) (count : Stats → Nat)
    (stats : List Stats) : List Entry :=
  rank ((stats.filter fun s => minRuns ≤ s.total && ratio < fraction s).map fun s =>
    .ofStats s (count s) (fraction s))

def pushDominant (o : Options) : List Stats → List Entry :=
  above o.pushDominantRatio o.pushDominantMinRuns Stats.pushFraction (·.events.push)

def highFailure (o : Options) : List Stats → List Entry :=
  above o.failureRatio o.minRuns Stats.failureRate Stats.failed

def highCancellation (o : Options) : List Stats → List Entry :=
  above o.cancelRatio o.minRuns Stats.cancellationRate Stats.cancelled

end WorkflowAudit.Report
