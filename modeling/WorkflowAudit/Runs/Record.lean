import WorkflowAudit.Time.Instant

namespace WorkflowAudit.Runs

inductive Status
  | queued
  | inProgress
  | completed
  | other
  deriving DecidableEq, Repr

inductive Conclusion
  | success
  | failure
  | cancelled
  | skipped
  | timedOut
  | actionRequired
  | neutral
  | stale
  | startupFailure
  | other
  deriving DecidableEq, Repr

structure Record where
  repository : String
  workflow : String
  createdAt : Time.Instant
  status : Status
  conclusion : Option Conclusion
  event : String
  deriving DecidableEq, Repr

end WorkflowAudit.Runs
