import WorkflowAudit.Json.Decode
import WorkflowAudit.Lint.Analysis

namespace WorkflowAudit.Lint

namespace Severity

def toJson (s : Severity) : Json := .str s.name

def ofJson? (j : Json) : Option Severity :=
  match j.plainChoice? with
  | some "warning" => some .warning
  | some "info" => some .info
  | _ => none

end Severity

namespace Finding

def members (f : Finding) : List (String × Json) :=
  [("rule", .str f.rule), ("severity", f.severity.toJson), ("message", .str f.message),
    ("file", .str f.file)] ++
  match f.tag with
  | some tag => [("tag", .str tag)]
  | none => []

def toJson (f : Finding) : Json := .obj f.members

def ofMembers? (fields : List (String × Json)) : Option Finding := do
  return ⟨← Json.field? fields "rule" Json.string?,
    ← Json.field? fields "severity" Severity.ofJson?,
    ← Json.field? fields "message" Json.string?, ← Json.field? fields "file" Json.string?,
    ← Json.nullableField? fields "tag" Json.string?⟩

def ofJson? (j : Json) : Option Finding :=
  (j.record? ["rule", "severity", "message", "file", "tag"] 1).bind ofMembers?

end Finding

namespace FindingRow

def toJson (r : FindingRow) : Json :=
  .obj (("repository", .str r.repository) :: r.finding.members)

def ofJson? : Json → Option FindingRow
  | .obj fields => do
    return ⟨← Json.field? fields "repository" Json.string?, ← Finding.ofMembers? fields⟩
  | _ => none

end FindingRow

namespace FileAnalysis

def members (a : FileAnalysis) : List (String × Json) :=
  [("file", .str a.file), ("workflow_name", .ofOption .str a.workflowName),
    ("job_count", .ofNat a.jobCount), ("step_count", .ofNat a.stepCount),
    ("degraded", .bool a.degraded), ("diagnostics", .ofStrings a.diagnostics),
    ("findings", .arr (a.findings.map Finding.toJson)),
    ("rule_failures", .ofStrings a.ruleFailures)]

def toJson (a : FileAnalysis) : Json := .obj a.members

def ofJson? (j : Json) : Option FileAnalysis := do
  let fields ← j.record? ["file", "workflow_name", "job_count", "step_count", "degraded",
    "diagnostics", "findings", "rule_failures"] 0
  return ⟨← Json.field? fields "file" Json.string?,
    ← Json.nullableField? fields "workflow_name" Json.string?,
    ← Json.field? fields "job_count" Json.nat64?, ← Json.field? fields "step_count" Json.nat64?,
    ← Json.field? fields "degraded" Json.bool?,
    ← Json.field? fields "diagnostics" (Json.listOf? Json.string?),
    ← Json.field? fields "findings" (Json.listOf? Finding.ofJson?),
    ← Json.field? fields "rule_failures" (Json.listOf? Json.string?)⟩

end FileAnalysis

namespace SkippedFile

def toJson (s : SkippedFile) : Json := .obj [("file", .str s.file), ("reason", .str s.reason)]

def ofJson? (j : Json) : Option SkippedFile := do
  let fields ← j.record? ["file", "reason"] 0
  return ⟨← Json.field? fields "file" Json.string?, ← Json.field? fields "reason" Json.string?⟩

end SkippedFile

namespace LintRun

def toJson (r : LintRun) : Json :=
  .obj [("analyses", .arr (r.analyses.map FileAnalysis.toJson)),
    ("skipped", .arr (r.skipped.map SkippedFile.toJson))]

def ofJson? (j : Json) : Option LintRun := do
  let fields ← j.record? ["analyses", "skipped"] 0
  return ⟨← Json.field? fields "analyses" (Json.listOf? FileAnalysis.ofJson?),
    ← Json.field? fields "skipped" (Json.listOf? SkippedFile.ofJson?)⟩

end LintRun

end WorkflowAudit.Lint
