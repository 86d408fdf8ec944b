import WorkflowAudit.Files.Question
import WorkflowAudit.Lint.Analysis

namespace WorkflowAudit.Lint

def lintFile (path : String) : Files.Dialogue (Except SkippedFile FileAnalysis) :=
  .ask (.read path) fun
    | .ok text => .done (.ok (.ofText text path))
    | .error e => .done (.error
        ⟨path, "Failed to read workflow file: " ++ path ++ ": " ++ e.message⟩)

namespace LintRun

def ofResults (results : List (Except SkippedFile FileAnalysis)) : LintRun where
  analyses := results.filterMap fun
    | .ok analysis => some analysis
    | .error _ => none
  skipped := results.filterMap fun
    | .ok _ => none
    | .error skipped => some skipped

end LintRun

def lintFiles (paths : List String) : Files.Dialogue LintRun :=
  (Dialogue.forEach lintFile paths).bind fun results => .done (.ofResults results)

end WorkflowAudit.Lint
