import WorkflowAudit.Audit.Run
import WorkflowAudit.Audit.Text
import WorkflowAudit.Config.Load
import WorkflowAudit.Json.Printer
import WorkflowAudit.Lint.Files
import WorkflowAudit.Lint.Json
import WorkflowAudit.Program.Action
import WorkflowAudit.Program.Environment
import WorkflowAudit.Program.Invocation
import WorkflowAudit.Report.Json
import WorkflowAudit.Report.Text
import WorkflowAudit.Runs.Json

namespace WorkflowAudit.Program

open Config (Settings)
open Terminal (Paint)

structure Result where
  exitCode : Nat
  output : String
  errors : String
  deriving DecidableEq, Repr

namespace Result

def success (output : String) : Result := ⟨0, output, ""⟩

def ofFailure (f : Failure) : Result := ⟨f.exitCode, "", f.text⟩

def ofUsageError (e : UsageError) : Result := ⟨2, "", "error: " ++ e.message ++ "\n"⟩

end Result

/-! ### Audits -/

namespace AuditRequest

def change (r : AuditRequest) (s : Settings) : Settings :=
  { s with
    windowDays := r.days.getD s.windowDays
    runLimit := r.limit.getD s.runLimit
    concurrency := r.concurrency.getD s.concurrency }

def asksNothing (r : AuditRequest) : Bool := r.owners.isEmpty && r.repositories.isEmpty

def client (r : AuditRequest) : Except Hosting.GitHub.ClientError Hosting.GitHub.Client :=
  (Hosting.GitHub.Client.ofToken r.token).map fun c =>
    match r.apiUrl with
    | some url => c.withBaseUrl url
    | none => c

end AuditRequest

def exportTo (path : String) (o : Audit.Outcome) : Action Unit := do
  let write (name : String) (j : Json) : Action Unit :=
    let file := Files.Path.join path name
    .attempt (.exportFile file) (Action.files (Action.write file j.pretty))
  .attempt (.exportDirectory path) (Action.files (Action.makeDirectory path))
  write "stats.json" (.arr (o.rows.map (·.toJson)))
  write "findings.json" (.arr (o.findings.map (·.toJson)))

def auditOutput (paint : Paint) (s : Settings) (format : Format) (o : Audit.Outcome) : String :=
  let report := o.report (.ofSettings s)
  match format with
  | .json =>
    let diagnostics := Json.arr (o.diagnostics.map (·.toJson))
    (Json.obj [("report", report.toJson), ("diagnostics", diagnostics)]).sortNames.pretty ++ "\n"
  | .text => Text.page (report.lines paint s ++ Audit.diagnosticLines paint o.diagnostics)

/-- The settings of an audit: those of the arguments, then those of the file, then the standard
ones. Both those of the file and all together have to be within bounds. -/
def settings (config : Option String) (r : AuditRequest) : Action Settings := do
  let loaded ← .attempt .settings (Action.files (Config.discover config))
  .ofExcept .changedSettings (r.change loaded).validate

def audit (paint : Paint) (config : Option String) (r : AuditRequest) : Action String := do
  let settings ← settings config r
  if r.asksNothing then throw .nothingToAudit
  let client ← .ofExcept .client r.client
  let (repositories, listing) ←
    .ofDialogue ((Audit.resolve r.owners r.repositories).through (Action.call client))
  if repositories.isEmpty then throw (.noRepositories listing)
  let run := Audit.run .builtin settings repositories (← Action.ofDialogue Action.now)
  let outcome ← .attempt .window (run.through (Action.query client))
  let outcome := outcome.recordOwnerListing r.owners.length listing
  if let some path := r.exportTo then exportTo path outcome
  return auditOutput paint settings r.format outcome

/-! ### Lints -/

def lintOutput (paint : Paint) (format : Format) (run : Lint.LintRun) : String :=
  match format with
  | .json => run.toJson.pretty ++ "\n"
  | .text => Text.page (run.lines paint)

def lint (paint : Paint) (path : String) (format : Format) : Action String := do
  let files ← .attempt .discovery (Action.files (Files.discover path))
  if files.isEmpty then throw (.noFiles path)
  let run ← .ofDialogue (Action.files (Lint.lintFiles files))
  if run.analyses.isEmpty then throw (.noReadableFiles run.skipped.length path)
  return lintOutput paint format run

/-! ### Runs -/

def Command.action (paint : Paint) (config : Option String) : Command → Action String
  | .audit request => Program.audit paint config request
  | .lint path format => Program.lint paint path format
  | .rules => return Text.page (Lint.ruleLines paint Lint.Engine.builtin.rules)

def helpText : String :=
  Text.page [
    "Audits the workflows of many repositories.", "",
    "Usage: " ++ programName ++ " [OPTIONS] <COMMAND>", "",
    "Commands:",
    "  audit  Audit the runs and workflow files of remote repositories",
    "  lint   Run the detection rules on local workflow files",
    "  rules  List the detection rules"]

def Invocation.result (e : Environment) : Invocation → Dialogue Result
  | .version => .done (.success (programName ++ " " ++ programVersion ++ "\n"))
  | .help => .done (.success helpText)
  | .run config command =>
    (command.action e.paint config).run.bind fun
      | .ok output => .done (.success output)
      | .error failure => .done (.ofFailure failure)

def run (e : Environment) (arguments : List String) : Dialogue Result :=
  match Invocation.read e.token? arguments with
  | .error usage => .done (.ofUsageError usage)
  | .ok invocation => invocation.result e

end WorkflowAudit.Program
