namespace WorkflowAudit.Report

structure Coverage where
  ownersRequested : Nat := 0
  ownersSkipped : Nat := 0
  repositoriesRequested : Nat := 0
  repositoriesAudited : Nat := 0
  repositoriesSkipped : Nat := 0
  repositoriesCancelled : Nat := 0
  filesAnalyzed : Nat := 0
  filesSkipped : Nat := 0
  degradedDocuments : Nat := 0
  ruleFailures : Nat := 0
  cancelled : Bool := false
  deriving DecidableEq, Repr

def Coverage.none : Coverage := {}

end WorkflowAudit.Report
