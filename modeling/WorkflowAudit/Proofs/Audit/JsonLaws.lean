import WorkflowAudit.Audit.Diagnostic
import WorkflowAudit.Lint.Engine
import WorkflowAudit.Proofs.Lint.JsonLaws
import WorkflowAudit.Proofs.Workflow.JsonLaws
import WorkflowAudit.Report.Json
import WorkflowAudit.Runs.Json

namespace WorkflowAudit

open Json (IsWord)

namespace Runs.StatsRow

def counts (r : StatsRow) : List Nat :=
  [r.total, r.failed, r.cancelled, r.push, r.pullRequest, r.schedule, r.dispatch, r.other]

def FitsWord (r : StatsRow) : Prop := ∀ n ∈ r.counts, IsWord n

instance : DecidablePred FitsWord :=
  fun r => inferInstanceAs (Decidable (∀ n ∈ r.counts, IsWord n))

theorem ofJson?_toJson {r : StatsRow} (h : r.FitsWord) : ofJson? r.toJson = some r := by
  simp only [FitsWord, counts, List.forall_mem_cons] at h
  simp [toJson, ofJson?, Json.nat64?_ofNat, h]

end Runs.StatsRow

namespace Report.Coverage

def counts (c : Coverage) : List Nat :=
  [c.ownersRequested, c.ownersSkipped, c.repositoriesRequested, c.repositoriesAudited,
    c.repositoriesSkipped, c.repositoriesCancelled, c.filesAnalyzed, c.filesSkipped,
    c.degradedDocuments, c.ruleFailures]

def FitsWord (c : Coverage) : Prop := ∀ n ∈ c.counts, IsWord n

instance : DecidablePred FitsWord :=
  fun c => inferInstanceAs (Decidable (∀ n ∈ c.counts, IsWord n))

theorem ofJson?_toJson {c : Coverage} (h : c.FitsWord) : ofJson? c.toJson = some c := by
  simp only [FitsWord, counts, List.forall_mem_cons] at h
  simp [toJson, ofJson?, Json.nat64?_ofNat, h]

end Report.Coverage

namespace Audit

theorem Kind.ofJson?_toJson (k : Kind) : ofJson? k.toJson = some k := by
  cases k <;> decide

theorem Diagnostic.ofJson?_toJson (d : Diagnostic) : ofJson? d.toJson = some d := by
  simp [toJson, ofJson?, Kind.ofJson?_toJson]

/-- What is written is read back as it was, so rules say the same of a document that was stored. -/
theorem readBack_json :
    (∀ d : Workflow.Document, d.FitsWord → Workflow.Document.ofJson? d.toJson = some d) ∧
      (∀ r : Lint.FindingRow, Lint.FindingRow.ofJson? r.toJson = some r) ∧
      (∀ d : Diagnostic, Diagnostic.ofJson? d.toJson = some d) ∧
      (∀ r : Runs.StatsRow, r.FitsWord → Runs.StatsRow.ofJson? r.toJson = some r) ∧
      (∀ c : Report.Coverage, c.FitsWord → Report.Coverage.ofJson? c.toJson = some c) ∧
      (∀ r : Lint.LintRun, r.FitsWord → Lint.LintRun.ofJson? r.toJson = some r) ∧
      ∀ (e : Lint.Engine) (text file : String), ∃ d,
        Workflow.Document.ofJson? (Workflow.Document.parse text).toJson = some d ∧
          e.evaluate d file = e.evaluate (Workflow.Document.parse text) file :=
  ⟨fun _ => Workflow.Document.ofJson?_toJson, Lint.FindingRow.ofJson?_toJson,
    Diagnostic.ofJson?_toJson, fun _ => Runs.StatsRow.ofJson?_toJson,
    fun _ => Report.Coverage.ofJson?_toJson, fun _ => Lint.LintRun.ofJson?_toJson,
    fun _ text _ => ⟨.parse text,
      Workflow.Document.ofJson?_toJson (Workflow.Document.fitsWord_parse text), rfl⟩⟩

/-- Its trigger is called like one of another kind, an empty list stands beside absent ones, and
the limit is the greatest there is. -/
def extremeDocument : Workflow.Document :=
  let trigger : Workflow.Trigger := ⟨.other "push", { branches := some [] }, ["* * * * *"]⟩
  let matrix : Workflow.Matrix := ⟨.ofList [("os", []), ("node", ["18", "20"])], false⟩
  let step : Workflow.Step := ⟨none, some "actions/checkout@v4", none, .ofList [("ref", "")]⟩
  let job : Workflow.Job := ⟨"build", none, [], none, some (.minutes (Nat.pow 2 64 - 1)),
    some ⟨"", none⟩, some matrix, none, none, [step]⟩
  ⟨none, [trigger], none, [job], false, false, []⟩

def busiestRow : Runs.StatsRow :=
  ⟨"acme/web", "ci.yml", Nat.pow 2 64 - 1, 0, 0, Nat.pow 2 64 - 1, 0, 0, 0, 0⟩

def widestCoverage : Report.Coverage := { filesAnalyzed := Nat.pow 2 64 - 1 }

def longestRun : Lint.LintRun :=
  ⟨[⟨"ci.yml", none, 1, Nat.pow 2 64 - 1, false, [], [], []⟩], []⟩

theorem readBack_json_extremes :
    Workflow.Document.ofJson? extremeDocument.toJson = some extremeDocument ∧
      Runs.StatsRow.ofJson? busiestRow.toJson = some busiestRow ∧
      Report.Coverage.ofJson? widestCoverage.toJson = some widestCoverage ∧
      Lint.LintRun.ofJson? longestRun.toJson = some longestRun :=
  ⟨readBack_json.1 _ (by decide), readBack_json.2.2.2.1 _ (by decide),
    readBack_json.2.2.2.2.1 _ (by decide), readBack_json.2.2.2.2.2.1 _ (by decide)⟩

end Audit

end WorkflowAudit
