import WorkflowAudit.Proofs.Audit.IndependenceLaws
import WorkflowAudit.Proofs.Lint.EngineLaws
import WorkflowAudit.Proofs.Lint.FilesLaws

namespace WorkflowAudit

namespace Audit

open Lint (FileAnalysis Finding)

def FileResults.messages (r : FileResults) (kind : Kind) : List String :=
  (r.diagnostics.filter (·.kind = kind)).map (·.message)

/-- The results for one file of a repository say what an analysis says, and nothing else. -/
structure FileResults.Agrees (r : FileResults) (repository file : String) (a : FileAnalysis) :
    Prop where
  findings : r.findings.map (·.finding.statement) = a.findings.map Finding.statement
  degraded : r.degraded = if a.degraded then 1 else 0
  parse : r.messages .parse = if a.degraded then [Text.joined "; " a.diagnostics] else []
  ruleFailures : r.messages .rule = a.ruleFailures
  ruleFailures_count : r.ruleFailures = a.ruleFailures.length
  analyzed : r.analyzed = 1 ∧ r.skipped = 0
  findings_of : ∀ row ∈ r.findings, row.repository = repository ∧ row.finding.file = file
  diagnostics_of : ∀ d ∈ r.diagnostics, d.repository = repository ∧ d.file = some file

namespace FileResults

variable (engine : Lint.Engine) (repository file : String) (d : Workflow.Document)

theorem messages_parse_ofDocument :
    (ofDocument engine repository file d).messages .parse =
      if d.degraded then [Text.joined "; " d.diagnostics] else [] := by
  simp only [messages, ofDocument, List.filter_append, List.filter_map, List.map_append]
  cases d.degraded <;> simp [Function.comp_def]

theorem messages_rule_ofDocument :
    (ofDocument engine repository file d).messages .rule =
      (engine.evaluate d file).failures.map fun f => f.rule ++ ": " ++ f.error.message := by
  simp only [messages, ofDocument, List.filter_append, List.filter_map, List.map_append]
  cases d.degraded <;> simp [Function.comp_def]

theorem file_of_mem_diagnostics_ofDocument :
    ∀ x ∈ (ofDocument engine repository file d).diagnostics, x.file = some file := by
  intro x hx
  rcases List.mem_append.mp hx with hx | hx
  · split at hx
    · rw [List.mem_singleton.mp hx]
    · cases hx
  · obtain ⟨_, _, rfl⟩ := List.mem_map.mp hx
    rfl

theorem agrees_ofDocument (path : String) :
    (ofDocument .builtin repository file d).Agrees repository file (.ofDocument d path) where
  findings := by
    rw [FileAnalysis.ofDocument, ← Lint.Engine.statements_evaluate d file .builtin path, ofDocument,
      List.map_map]
    rfl
  degraded := rfl
  parse := messages_parse_ofDocument ..
  ruleFailures := by
    have herrors := Lint.Engine.errors_evaluate d file .builtin path
    -- The texts leave out the file, which is all the failures differ in.
    have hmessages := congrArg (List.map fun e => e.1 ++ ": " ++ e.2.message) herrors
    rw [messages_rule_ofDocument]
    rwa [List.map_map, List.map_map] at hmessages
  ruleFailures_count := by
    have hlength := congrArg List.length (Lint.Engine.errors_evaluate d file .builtin path)
    rw [List.length_map, List.length_map] at hlength
    rw [FileAnalysis.ofDocument, List.length_map]
    exact hlength
  analyzed := ⟨rfl, rfl⟩
  findings_of row hrow := by
    obtain ⟨f, hf, rfl⟩ := List.mem_map.mp hrow
    exact ⟨rfl, Lint.Engine.file_of_mem_findings d file _ hf⟩
  diagnostics_of x hx :=
    ⟨(IsOf.ofDocument ..).diagnostics x hx, file_of_mem_diagnostics_ofDocument _ _ _ _ x hx⟩

end FileResults

open Hosting (Call isDefinitionFile)

theorem FileResults.silent_ofFetched {repository file : String}
    {answer : (Call.definition repository file).Answer} (h : ∀ text, answer ≠ .ok (some text)) :
    (ofFetched .builtin repository file answer).findings = [] ∧
      (ofFetched .builtin repository file answer).analyzed = 0 := by
  match answer with
  | .ok (some text) => exact absurd rfl (h text)
  | .ok Option.none => exact ⟨rfl, rfl⟩
  | .error e => exact ⟨rfl, rfl⟩

theorem exists_parts_of_files {answer : (c : Call) → c.Answer} {repository : String}
    {names : List String} (runLimit : Nat) (h : answer (.files repository) = .ok names) :
    ∃ parts, (auditOf answer .builtin runLimit repository).files = .join parts ∧
      List.Forall₂ (fun file part =>
        (∀ text, answer (.definition repository file) = .ok (some text) →
          ∀ path, part.Agrees repository file (.ofText text path)) ∧
        ((∀ text, answer (.definition repository file) ≠ .ok (some text)) →
          part.findings = [] ∧ part.analyzed = 0))
        (names.filter isDefinitionFile) parts := by
  refine ⟨(names.filter isDefinitionFile).map fun file =>
    .ofFetched .builtin repository file (answer (.definition repository file)), ?_, ?_⟩
  · have hanswer : answerAt answer false (.call (.files repository)) = .ok names := h
    rw [files_auditOf, auditFiles, Dialogue.answeredBy, hanswer]
    change Dialogue.answeredBy _ (Dialogue.bind _ _) = _
    rw [Dialogue.answeredBy_bind, Dialogue.answeredBy_forEach]
    rfl
  · rw [List.forall₂_map_right_iff]
    refine List.forall₂_same.mpr fun file _ => ⟨fun text htext path => ?_, fun hnone => ?_⟩
    · rw [htext]
      exact FileResults.agrees_ofDocument repository file (Workflow.Document.parse text) path
    · exact FileResults.silent_ofFetched hnone

end Audit

end WorkflowAudit
