namespace WorkflowAudit.Lint

inductive Severity
  | warning
  | info
  deriving DecidableEq, Repr

namespace Severity

def name : Severity → String
  | .warning => "warning"
  | .info => "info"

def symbol : Severity → String
  | .warning => "WARNING"
  | .info => "INFO"

def priority : Severity → Nat
  | .warning => 2
  | .info => 1

end Severity

structure Detection where
  severity : Severity
  message : String
  tag : Option String
  deriving DecidableEq, Repr

namespace Detection

def warning (message : String) : Detection := ⟨.warning, message, none⟩

def info (message : String) : Detection := ⟨.info, message, none⟩

def withTag (d : Detection) (tag : String) : Detection := { d with tag := some tag }

end Detection

structure Finding where
  rule : String
  severity : Severity
  message : String
  file : String
  tag : Option String
  deriving DecidableEq, Repr

def Detection.inFile (d : Detection) (rule file : String) : Finding :=
  ⟨rule, d.severity, d.message, file, d.tag⟩

structure FindingRow where
  repository : String
  finding : Finding
  deriving DecidableEq, Repr

def countOf (severity : Severity) (findings : List Finding) : Nat :=
  findings.countP (·.severity = severity)

end WorkflowAudit.Lint
