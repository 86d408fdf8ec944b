import Mathlib
import WorkflowAudit.Lint.Engine

namespace WorkflowAudit.Lint

open Workflow (Document)

namespace Evaluation

theorem empty_append (a : Evaluation) : empty.append a = a := rfl

theorem append_empty (a : Evaluation) : a.append empty = a := by
  simp [append, empty]

theorem append_assoc (a b c : Evaluation) : (a.append b).append c = a.append (b.append c) := by
  simp [append]

end Evaluation

def Finding.statement (f : Finding) : String × Detection := (f.rule, ⟨f.severity, f.message, f.tag⟩)

namespace Rule

def findingsIn (r : Rule) (d : Document) (file : String) : List Finding :=
  match r.apply d with
  | .detected detections => detections.map fun x => ⟨r.id, x.severity, x.message, file, x.tag⟩
  | .refused _ => []
  | .crashed _ => []

def failure? (r : Rule) (d : Document) (file : String) : Option RuleFailure :=
  match r.apply d with
  | .detected _ => none
  | .refused error => some ⟨r.id, file, error⟩
  | .crashed (some text) => some ⟨r.id, file, .crashed text⟩
  | .crashed none => some ⟨r.id, file, .crashed "unknown panic"⟩

variable (r : Rule) (d : Document) (file : String)

theorem findingsIn_of_detected {detections : List Detection}
    (h : r.apply d = .detected detections) :
    r.findingsIn d file = detections.map (·.inFile r.id file) := by
  rw [findingsIn, h]
  rfl

theorem evaluate_eq :
    r.evaluate d file = ⟨r.findingsIn d file, (r.failure? d file).toList⟩ := by
  rw [evaluate, findingsIn, failure?]
  match r.apply d with
  | .detected detections => rfl
  | .refused error => rfl
  | .crashed (some text) => rfl
  | .crashed none => rfl

theorem rule_of_mem_findingsIn {f : Finding} (h : f ∈ r.findingsIn d file) : f.rule = r.id := by
  rw [findingsIn] at h
  split at h
  · obtain ⟨x, -, rfl⟩ := List.mem_map.mp h
    rfl
  · cases h
  · cases h

theorem file_of_mem_findingsIn {f : Finding} (h : f ∈ r.findingsIn d file) : f.file = file := by
  rw [findingsIn] at h
  split at h
  · obtain ⟨x, -, rfl⟩ := List.mem_map.mp h
    rfl
  · cases h
  · cases h

theorem statements_findingsIn (file' : String) :
    (r.findingsIn d file).map Finding.statement = (r.findingsIn d file').map Finding.statement := by
  rw [findingsIn, findingsIn]
  cases r.apply d with
  | detected detections => simp [Finding.statement]
  | refused | crashed => rfl

theorem errors_failure? (file' : String) :
    (r.failure? d file).map (fun f => (f.rule, f.error)) =
      (r.failure? d file').map fun f => (f.rule, f.error) := by
  rw [failure?, failure?]
  cases r.apply d with
  | detected | refused => rfl
  | crashed text => cases text <;> rfl

theorem filter_findingsIn (id : String) :
    (r.findingsIn d file).filter (·.rule = id) = if r.id = id then r.findingsIn d file else [] := by
  split
  case isTrue h =>
    refine List.filter_eq_self.mpr fun f hf => ?_
    rw [decide_eq_true_eq, r.rule_of_mem_findingsIn d file hf]
    exact h
  case isFalse h =>
    refine List.filter_eq_nil_iff.mpr fun f hf => ?_
    rw [decide_eq_true_eq, r.rule_of_mem_findingsIn d file hf]
    exact h

theorem findingsIn_of_failure {failure : RuleFailure} (h : r.failure? d file = some failure) :
    r.findingsIn d file = [] := by
  rw [failure?] at h
  rw [findingsIn]
  match hverdict : r.apply d with
  | .detected detections =>
    rw [hverdict] at h
    cases h
  | .refused error => rfl
  | .crashed text => rfl

end Rule

namespace Engine

variable (rules more : List Rule) (r : Rule) (d : Document) (file : String)

theorem evaluate_nil : (mk []).evaluate d file = .empty := rfl

theorem evaluate_cons :
    (mk (r :: rules)).evaluate d file = (r.evaluate d file).append ((mk rules).evaluate d file) :=
  rfl

theorem evaluate_append :
    (mk (rules ++ more)).evaluate d file =
      ((mk rules).evaluate d file).append ((mk more).evaluate d file) := by
  induction rules with
  | nil => rw [List.nil_append, evaluate_nil, Evaluation.empty_append]
  | cons r rules ih =>
    rw [List.cons_append, evaluate_cons, evaluate_cons, ih, Evaluation.append_assoc]

theorem evaluate_withRule (e : Engine) :
    (e.withRule r).evaluate d file = (e.evaluate d file).append (r.evaluate d file) := by
  rw [withRule, evaluate_append, evaluate_cons, evaluate_nil, Evaluation.append_empty]

theorem findings_evaluate :
    ((mk rules).evaluate d file).findings = rules.flatMap (·.findingsIn d file) := by
  induction rules with
  | nil => rfl
  | cons r rules ih =>
    rw [evaluate_cons, r.evaluate_eq, List.flatMap_cons, ← ih]
    rfl

theorem failures_evaluate :
    ((mk rules).evaluate d file).failures = rules.filterMap (·.failure? d file) := by
  induction rules with
  | nil => rfl
  | cons r rules ih =>
    rw [evaluate_cons, r.evaluate_eq, List.filterMap_cons, ← ih]
    cases r.failure? d file with
    | none => rfl
    | some failure => rfl

theorem filter_findings_evaluate (id : String) :
    ((mk rules).evaluate d file).findings.filter (·.rule = id) =
      (rules.filter (·.id = id)).flatMap (·.findingsIn d file) := by
  rw [findings_evaluate]
  induction rules with
  | nil => rfl
  | cons r rules ih =>
    rw [List.flatMap_cons, List.filter_append, ih, r.filter_findingsIn, List.filter_cons]
    by_cases h : r.id = id <;> simp [h]

theorem filter_findings_builtin_rule {r : Rule} {id : String}
    (h : builtinRules.filter (·.id = id) = [r]) :
    (builtin.evaluate d file).findings.filter (·.rule = id) = r.findingsIn d file := by
  rw [builtin, filter_findings_evaluate, h, List.flatMap_singleton]

theorem filter_findings_builtin {id summary : String} {detect : Document → List Detection}
    (h : builtinRules.filter (·.id = id) = [.ofDetections id summary detect]) :
    (builtin.evaluate d file).findings.filter (·.rule = id) =
      (detect d).map (·.inFile id file) :=
  filter_findings_builtin_rule d file h

def Reports (e : Engine) (d : Document) (file id : String) : Prop :=
  ∃ f ∈ (e.evaluate d file).findings, f.rule = id

theorem reports_builtin_iff {id summary : String} {detect : Document → List Detection}
    (h : builtinRules.filter (·.id = id) = [.ofDetections id summary detect]) :
    builtin.Reports d file id ↔ detect d ≠ [] := by
  have hfilter : (builtin.evaluate d file).findings.filter (·.rule = id) = [] ↔ detect d = [] := by
    rw [filter_findings_builtin d file h, List.map_eq_nil_iff]
  rw [Ne, ← hfilter, List.filter_eq_nil_iff]
  simp [Reports]

theorem rule_mem_ruleIds {f : Finding} (h : f ∈ ((mk rules).evaluate d file).findings) :
    f.rule ∈ (mk rules).ruleIds := by
  rw [findings_evaluate] at h
  obtain ⟨r, hr, hf⟩ := List.mem_flatMap.mp h
  exact List.mem_map.mpr ⟨r, hr, (r.rule_of_mem_findingsIn d file hf).symm⟩

theorem statements_evaluate (e : Engine) (file' : String) :
    (e.evaluate d file).findings.map Finding.statement =
      (e.evaluate d file').findings.map Finding.statement := by
  rw [findings_evaluate, findings_evaluate, List.map_flatMap, List.map_flatMap]
  simp only [Rule.statements_findingsIn _ d file file']

theorem errors_evaluate (e : Engine) (file' : String) :
    (e.evaluate d file).failures.map (fun f => (f.rule, f.error)) =
      (e.evaluate d file').failures.map fun f => (f.rule, f.error) := by
  rw [failures_evaluate, failures_evaluate, List.map_filterMap, List.map_filterMap]
  simp only [Rule.errors_failure? _ d file file']

theorem file_of_mem_findings (e : Engine) {f : Finding} (h : f ∈ (e.evaluate d file).findings) :
    f.file = file := by
  rw [findings_evaluate] at h
  obtain ⟨r, -, hf⟩ := List.mem_flatMap.mp h
  exact r.file_of_mem_findingsIn d file hf

theorem evaluate_around (before after : List Rule) :
    (mk (before ++ r :: after)).evaluate d file =
      (((mk before).evaluate d file).append (r.evaluate d file)).append
        ((mk after).evaluate d file) := by
  rw [evaluate_append, evaluate_cons, Evaluation.append_assoc]

/-- The findings of the rules that succeed and the failures of the others stand in the order of the
rules. More rules leave what the earlier ones contribute as it is, and a rule that fails in place of
another takes away the findings of that rule alone, for one failure. -/
theorem evaluate_isolates :
    ((mk rules).evaluate d file).findings = rules.flatMap (·.findingsIn d file) ∧
    ((mk rules).evaluate d file).failures = rules.filterMap (·.failure? d file) ∧
    (∀ more, (mk (rules ++ more)).evaluate d file =
      ⟨((mk rules).evaluate d file).findings ++ ((mk more).evaluate d file).findings,
        ((mk rules).evaluate d file).failures ++ ((mk more).evaluate d file).failures⟩) ∧
    (∀ r, ((mk rules).evaluate d file).findings <+:
        (((mk rules).withRule r).evaluate d file).findings ∧
      ((mk rules).evaluate d file).failures <+:
        (((mk rules).withRule r).evaluate d file).failures) ∧
    ∀ before r after failing failure, rules = before ++ r :: after →
      failing.failure? d file = some failure →
      (mk rules).evaluate d file =
        ⟨((mk before).evaluate d file).findings ++ r.findingsIn d file ++
            ((mk after).evaluate d file).findings,
          ((mk before).evaluate d file).failures ++ (r.failure? d file).toList ++
            ((mk after).evaluate d file).failures⟩ ∧
      (mk (before ++ failing :: after)).evaluate d file =
        ⟨((mk before).evaluate d file).findings ++ ((mk after).evaluate d file).findings,
          ((mk before).evaluate d file).failures ++ failure ::
            ((mk after).evaluate d file).failures⟩ := by
  refine ⟨findings_evaluate .., failures_evaluate .., fun more => evaluate_append .., ?_, ?_⟩
  · intro r
    rw [evaluate_withRule]
    exact ⟨List.prefix_append .., List.prefix_append ..⟩
  · rintro before r after failing failure rfl hfailing
    rw [evaluate_around, evaluate_around, r.evaluate_eq, failing.evaluate_eq, hfailing,
      failing.findingsIn_of_failure d file hfailing]
    simp [Evaluation.append]

def sampleRules : List Rule :=
  [⟨"FAILS", "never succeeds", fun _ => .refused (.evaluation "boom")⟩,
    .ofDetections "ALWAYS" "always finds something" fun _ => [.info "found"],
    ⟨"CRASHES", "always crashes", fun _ => .crashed none⟩]

theorem evaluate_isolates_sampleRules :
    ((mk sampleRules).evaluate .empty "ci.yml").findings.map (·.rule) = ["ALWAYS"] ∧
      (mk [sampleRules[0], sampleRules[2], sampleRules[2]]).evaluate .empty "ci.yml" =
        ⟨[], [⟨"FAILS", "ci.yml", .evaluation "boom"⟩,
          ⟨"CRASHES", "ci.yml", .crashed "unknown panic"⟩,
          ⟨"CRASHES", "ci.yml", .crashed "unknown panic"⟩]⟩ := by
  obtain ⟨hfindings, -, -, -, hreplaced⟩ := evaluate_isolates sampleRules .empty "ci.yml"
  refine ⟨by rw [hfindings]; rfl, ?_⟩
  exact (hreplaced [sampleRules[0]] sampleRules[1] [sampleRules[2]] sampleRules[2] _ rfl rfl).2

end Engine

end WorkflowAudit.Lint
