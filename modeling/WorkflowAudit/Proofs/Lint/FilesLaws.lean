import WorkflowAudit.Lint.Files

namespace WorkflowAudit.Lint

variable {world world' : (q : Files.Question) → q.Answer} {path text : String}

def textAt? (world : (q : Files.Question) → q.Answer) (path : String) : Option String :=
  match (world (.read path) : Except Files.Error String) with
  | .ok text => some text
  | .error _ => none

def lintOf (world : (q : Files.Question) → q.Answer) (paths : List String) : LintRun :=
  (lintFiles paths).answeredBy world

/-- Paths that can be read are analyzed and the others skipped, in their order, and what is said of
each of them is what is said of it alone. -/
structure LintRun.Covers (run : LintRun) (world : (q : Files.Question) → q.Answer)
    (paths : List String) : Prop where
  analyzed : run.analyses.map (·.file) = paths.filter fun p => (textAt? world p).isSome
  skipped : run.skipped.map (·.file) = paths.filter fun p => (textAt? world p).isNone
  analyses_alone : run.analyses = paths.flatMap fun p => (lintOf world [p]).analyses
  skipped_alone : run.skipped = paths.flatMap fun p => (lintOf world [p]).skipped

theorem lintOf_eq (world : (q : Files.Question) → q.Answer) (paths : List String) :
    lintOf world paths = .ofResults (paths.map fun p => (lintFile p).answeredBy world) := by
  rw [lintOf, lintFiles, Dialogue.answeredBy_bind, Dialogue.answeredBy_forEach]
  rfl

theorem lintOf_cons (world : (q : Files.Question) → q.Answer) (path : String)
    (paths : List String) : lintOf world (path :: paths) =
      ⟨(lintOf world [path]).analyses ++ (lintOf world paths).analyses,
        (lintOf world [path]).skipped ++ (lintOf world paths).skipped⟩ := by
  simp only [lintOf_eq, LintRun.ofResults, ← List.filterMap_append, ← List.map_append,
    List.singleton_append]

theorem answeredBy_lintFile (world : (q : Files.Question) → q.Answer) (path : String) :
    (lintFile path).answeredBy world =
      match (world (.read path) : Except Files.Error String) with
      | .ok text => .ok (.ofText text path)
      | .error e => .error ⟨path, "Failed to read workflow file: " ++ path ++ ": " ++ e.message⟩ := by
  rw [lintFile, Dialogue.answeredBy]
  cases world (.read path) with
  | ok text => rfl
  | error e => rfl

theorem lintOf_of_text (h : textAt? world path = some text) :
    lintOf world [path] = ⟨[.ofText text path], []⟩ := by
  rw [textAt?] at h
  rw [lintOf_eq, List.map_singleton, answeredBy_lintFile]
  split at h <;> cases h
  rfl

theorem lintOf_of_no_text (h : textAt? world path = none) :
    ∃ reason, lintOf world [path] = ⟨[], [⟨path, reason⟩]⟩ := by
  rw [textAt?] at h
  rw [lintOf_eq, List.map_singleton, answeredBy_lintFile]
  split at h <;> cases h
  exact ⟨_, rfl⟩

theorem lintOf_congr (h : world (.read path) = world' (.read path)) :
    lintOf world [path] = lintOf world' [path] := by
  rw [lintOf_eq, lintOf_eq, List.map_singleton, List.map_singleton, answeredBy_lintFile,
    answeredBy_lintFile, h]

theorem lintOf_covers (world : (q : Files.Question) → q.Answer) (paths : List String) :
    (lintOf world paths).Covers world paths := by
  induction paths with
  | nil => exact ⟨rfl, rfl, rfl, rfl⟩
  | cons path paths ih =>
    -- What is said of the first path goes before the rest, so one path alone is all there is to see.
    have hfirst : (lintOf world [path]).analyses.map (·.file) =
          [path].filter (fun p => (textAt? world p).isSome) ∧
        (lintOf world [path]).skipped.map (·.file) =
          [path].filter fun p => (textAt? world p).isNone := by
      cases htext : textAt? world path with
      | some text =>
        simp [lintOf_of_text htext, htext, FileAnalysis.ofText, FileAnalysis.ofDocument]
      | none =>
        obtain ⟨reason, halone⟩ := lintOf_of_no_text htext
        simp [halone, htext]
    rw [lintOf_cons]
    constructor
    · rw [List.map_append, hfirst.1, ih.analyzed, ← List.filter_append, List.singleton_append]
    · rw [List.map_append, hfirst.2, ih.skipped, ← List.filter_append, List.singleton_append]
    · rw [List.flatMap_cons, ← ih.analyses_alone]
    · rw [List.flatMap_cons, ← ih.skipped_alone]

theorem isEmpty_analyses_iff (world : (q : Files.Question) → q.Answer) (paths : List String) :
    (lintOf world paths).analyses.isEmpty ↔ ∀ p ∈ paths, textAt? world p = none := by
  rw [List.isEmpty_iff, ← List.map_eq_nil_iff (f := (·.file)), (lintOf_covers world paths).analyzed,
    List.filter_eq_nil_iff]
  simp

end WorkflowAudit.Lint
