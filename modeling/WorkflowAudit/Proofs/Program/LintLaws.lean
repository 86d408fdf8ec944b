import WorkflowAudit.Program.Run
import WorkflowAudit.Proofs.Audit.AnalysisLaws
import WorkflowAudit.Proofs.Program.ActionLaws

namespace WorkflowAudit

namespace Program

open Program.Action (filesOf)
open Lint (textAt? lintOf lintOf_covers lintOf_congr lintOf_of_text isEmpty_analyses_iff)
open Audit (auditOf exists_parts_of_files)
open Hosting (Call isDefinitionFile)

theorem outcome_lint (world : (q : Question) → q.Answer) (paint : Terminal.Paint) (path : String)
    (format : Format) :
    (lint paint path format).outcome world =
      match (Files.discover path).answeredBy (filesOf world) with
      | .error e => .error (.discovery e)
      | .ok files =>
        let run := Lint.lintOf (filesOf world) files
        if files.isEmpty then .error (.noFiles path)
        else if run.analyses.isEmpty then .error (.noReadableFiles run.skipped.length path)
        else .ok (lintOutput paint format run) := by
  rw [lint, Action.outcome_bind, Action.outcome_attempt, Action.answeredBy_files]
  cases (Files.discover path).answeredBy (filesOf world) with
  | error e => rfl
  | ok files =>
    change _ = if files.isEmpty then Except.error (Failure.noFiles path) else _
    refine (Action.outcome_unless world files.isEmpty _ _).trans ?_
    rw [Action.outcome_bind, Action.outcome_ofDialogue, Action.answeredBy_files]
    exact congrArg (if files.isEmpty then _ else ·) (Action.outcome_unless world _ _ _)

/-- A lint fails if nothing can be looked for, nothing is found, or nothing found can be read. -/
theorem exists_failure_lint_iff (world : (q : Question) → q.Answer) (paint : Terminal.Paint)
    (path : String) (format : Format) :
    (∃ e, (lint paint path format).outcome world = .error e) ↔
      (∃ e, (Files.discover path).answeredBy (filesOf world) = .error e) ∨
        (Files.discover path).answeredBy (filesOf world) = .ok [] ∨
        ∃ files, (Files.discover path).answeredBy (filesOf world) = .ok files ∧ files ≠ [] ∧
          ∀ p ∈ files, textAt? (filesOf world) p = none := by
  rw [outcome_lint]
  cases (Files.discover path).answeredBy (filesOf world) with
  | error e => exact ⟨fun _ => .inl ⟨e, rfl⟩, fun _ => ⟨_, rfl⟩⟩
  | ok files =>
    cases files with
    | nil => exact ⟨fun _ => .inr (.inl rfl), fun _ => ⟨_, rfl⟩⟩
    | cons first rest =>
      have hread := isEmpty_analyses_iff (filesOf world) (first :: rest)
      constructor
      · rintro ⟨e, he⟩
        refine .inr (.inr ⟨_, rfl, List.cons_ne_nil _ _, hread.mp ?_⟩)
        by_contra hne
        simp only [List.isEmpty_cons, Bool.false_eq_true, if_false, if_neg hne] at he
        cases he
      · rintro (⟨e, he⟩ | hnil | ⟨files, hfiles, -, hnone⟩)
        · cases he
        · cases hnil
        · cases hfiles
          exact ⟨_, (if_neg Bool.false_ne_true).trans (if_pos (hread.mpr hnone))⟩

/-- Files at hand and files of repositories are told the same, every file at hand is accounted for
on its own, and a lint fails only if there is no file to tell of. -/
theorem lint_agrees :
    (∀ (answer : (c : Call) → c.Answer) (runLimit : Nat) (repository : String) (names : List String),
      answer (.files repository) = .ok names →
      ∃ parts, (auditOf answer .builtin runLimit repository).files = .join parts ∧
        List.Forall₂ (fun file part =>
          (∀ text, answer (.definition repository file) = .ok (some text) →
            ∀ (world : (q : Files.Question) → q.Answer) (path : String),
              textAt? world path = some text →
              ∃ a, lintOf world [path] = ⟨[a], []⟩ ∧ part.Agrees repository file a) ∧
          ((∀ text, answer (.definition repository file) ≠ .ok (some text)) →
            part.findings = [] ∧ part.analyzed = 0))
          (names.filter isDefinitionFile) parts) ∧
    (∀ (world : (q : Files.Question) → q.Answer) (paths : List String),
      (lintOf world paths).Covers world paths) ∧
    (∀ (world world' : (q : Files.Question) → q.Answer) (path : String),
      world (.read path) = world' (.read path) → lintOf world [path] = lintOf world' [path]) ∧
    ∀ (world : (q : Question) → q.Answer) (paint : Terminal.Paint) (path : String)
      (format : Format),
      (∃ e, (lint paint path format).outcome world = .error e) ↔
        (∃ e, (Files.discover path).answeredBy (filesOf world) = .error e) ∨
          (Files.discover path).answeredBy (filesOf world) = .ok [] ∨
          ∃ files, (Files.discover path).answeredBy (filesOf world) = .ok files ∧ files ≠ [] ∧
            ∀ p ∈ files, textAt? (filesOf world) p = none := by
  refine ⟨fun answer runLimit repository names hnames => ?_, lintOf_covers,
    fun _ _ _ => lintOf_congr, exists_failure_lint_iff⟩
  obtain ⟨parts, hparts, hagree⟩ := exists_parts_of_files runLimit hnames
  refine ⟨parts, hparts, hagree.imp fun file part h => ⟨fun text htext world path hpath => ?_, h.2⟩⟩
  exact ⟨_, lintOf_of_text hpath, h.1 text htext path⟩

def sampleText : String := "on: push\njobs:\n  build:\n    runs-on: macos-latest\n    steps: [\n"

def sampleAnswer : (c : Call) → c.Answer
  | .repositories _ => .ok []
  | .runs _ _ => .error (.other "down")
  | .files _ => .ok ["ci.yml", "README.md"]
  | .definition _ _ => .ok (some sampleText)

def sampleFiles (text : String) : (q : Files.Question) → q.Answer
  | .layout _ => none
  | .read path => if path = "local/ci.yml" then .ok text else .error .denied
  | .makeDirectory _ => .ok ()
  | .write _ _ => .ok ()

theorem lint_agrees_sampleText :
    (∃ part a, (auditOf sampleAnswer .builtin 100 "acme/web").files = .join [part] ∧
      lintOf (sampleFiles sampleText) ["local/ci.yml"] = ⟨[a], []⟩ ∧
      part.Agrees "acme/web" "ci.yml" a) ∧
    lintOf (sampleFiles sampleText) ["a.yml"] = lintOf (sampleFiles "") ["a.yml"] := by
  refine ⟨?_, lint_agrees.2.2.1 _ _ _ rfl⟩
  obtain ⟨parts, hparts, hagree⟩ :=
    lint_agrees.1 sampleAnswer 100 "acme/web" ["ci.yml", "README.md"] rfl
  have hnames : ["ci.yml", "README.md"].filter isDefinitionFile = ["ci.yml"] := by decide
  rw [hnames] at hagree
  obtain ⟨part, _, hpart, hrest, rfl⟩ := List.forall₂_cons_left_iff.mp hagree
  cases hrest
  obtain ⟨a, ha, hagrees⟩ := hpart.1 sampleText rfl (sampleFiles sampleText) "local/ci.yml" rfl
  exact ⟨part, a, hparts, ha, hagrees⟩

end Program

end WorkflowAudit
