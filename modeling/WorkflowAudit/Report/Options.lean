import WorkflowAudit.Config.Settings

namespace WorkflowAudit.Report

structure Options where
  topN : Nat
  scheduleThreshold : Nat
  pushDominantRatio : Float
  pushDominantMinRuns : Nat
  failureRatio : Float
  cancelRatio : Float
  minRuns : Nat

namespace Options

def ofSettings (s : Config.Settings) : Options :=
  ⟨s.topN, s.scheduleThreshold, s.pushDominantRatio, s.pushDominantMinRuns, s.failureRatio,
    s.cancelRatio, s.minRuns⟩

def standard : Options := ofSettings .standard

end Options

end WorkflowAudit.Report
