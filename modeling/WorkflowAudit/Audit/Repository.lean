import WorkflowAudit.Audit.Diagnostic
import WorkflowAudit.Hosting.Service
import WorkflowAudit.Lint.Engine
import WorkflowAudit.Workflow.Parse

namespace WorkflowAudit.Audit

open Hosting (Call)
open Lint (Engine FindingRow)
open Workflow (Document)

inductive Query
  | call (c : Call)
  | cancelled
  deriving DecidableEq, Repr

def Query.Answer : Query → Type
  | .call c => c.Answer
  | .cancelled => Bool

structure FileResults where
  findings : List FindingRow
  diagnostics : List Diagnostic
  analyzed : Nat
  skipped : Nat
  degraded : Nat
  ruleFailures : Nat
  deriving DecidableEq, Repr

namespace FileResults

def none : FileResults := ⟨[], [], 0, 0, 0, 0⟩

def append (a b : FileResults) : FileResults :=
  ⟨a.findings ++ b.findings, a.diagnostics ++ b.diagnostics, a.analyzed + b.analyzed,
    a.skipped + b.skipped, a.degraded + b.degraded, a.ruleFailures + b.ruleFailures⟩

def join (l : List FileResults) : FileResults := l.foldr append none

def ofSkipped (repository : String) (file : Option String) (kind : Kind) (message : String) :
    FileResults :=
  { none with diagnostics := [⟨repository, file, kind, message⟩], skipped := 1 }

def ofDocument (engine : Engine) (repository file : String) (d : Document) : FileResults :=
  let evaluation := engine.evaluate d file
  let parse := if d.degraded then
      [⟨repository, some file, .parse, Text.joined "; " d.diagnostics⟩] else []
  let rules := evaluation.failures.map fun f =>
    ⟨repository, some file, .rule, f.rule ++ ": " ++ f.error.message⟩
  { findings := evaluation.findings.map fun f => ⟨repository, f⟩
    diagnostics := parse ++ rules
    analyzed := 1
    skipped := 0
    degraded := if d.degraded then 1 else 0
    ruleFailures := evaluation.failures.length }

def ofFetched (engine : Engine) (repository file : String) :
    Except Hosting.FetchError (Option String) → FileResults
  | .ok (some text) => ofDocument engine repository file (Document.parse text)
  | .ok Option.none => ofSkipped repository (some file) .fileContent "file not found"
  | .error e => ofSkipped repository (some file) .fileContent e.message

end FileResults

structure RepositoryAudit where
  records : List Runs.Record
  runHistory : List Diagnostic
  files : FileResults
  deriving DecidableEq, Repr

def auditFiles (engine : Engine) (repository : String) : Dialogue Query.Answer FileResults :=
  .ask (.call (.files repository)) fun
    | .error e => .done (.ofSkipped repository none .fileListing e.message)
    | .ok names =>
      (Dialogue.forEach (fun file => .ask (.call (.definition repository file)) fun answer =>
        .done (FileResults.ofFetched engine repository file answer))
        (names.filter Hosting.isDefinitionFile)).bind fun l => .done (.join l)

def auditStarted (engine : Engine) (runLimit : Nat) (repository : String) :
    Dialogue Query.Answer RepositoryAudit :=
  .ask (.call (.runs repository runLimit)) fun
    | .ok records => (auditFiles engine repository).bind fun files => .done ⟨records, [], files⟩
    | .error e => (auditFiles engine repository).bind fun files =>
      .done ⟨[], [⟨repository, none, .runHistory, e.message⟩], files⟩

/-- The audit of a repository, or none if the whole audit was cancelled before its start. -/
def auditRepository (engine : Engine) (runLimit : Nat) (repository : String) :
    Dialogue Query.Answer (Option RepositoryAudit) :=
  .ask .cancelled fun
    | true => .done none
    | false => (auditStarted engine runLimit repository).bind fun audit => .done (some audit)

end WorkflowAudit.Audit
