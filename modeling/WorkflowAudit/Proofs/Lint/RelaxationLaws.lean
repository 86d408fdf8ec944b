import WorkflowAudit.Proofs.Lint.Relaxation
import WorkflowAudit.Proofs.Lint.RuleTableLaws

namespace WorkflowAudit.Lint

open Rules (RunnerFamily namingAll)
open Workflow (Document Event Filters Job Step Trigger)

def Covers (l r : List Detection) : Prop :=
  ∀ x ∈ l, ∃ y ∈ r, y.tag = x.tag ∧ x.severity.priority ≤ y.severity.priority

namespace Covers

variable {l r : List Detection}

theorem refl (l : List Detection) : Covers l l := fun x hx => ⟨x, hx, rfl, Nat.le_refl _⟩

theorem nil (r : List Detection) : Covers [] r := fun _ hx => nomatch hx

theorem ite {b c : Bool} (h : b = false → Covers l r) (hcb : c → b) :
    Covers (if b then [] else l) (if c then [] else r) := by
  cases b with
  | true => exact nil _
  | false =>
    cases c with
    | true => exact absurd (hcb rfl) Bool.false_ne_true
    | false => exact h rfl

theorem namingAll {detection : String → Detection} {names others : List String}
    (h : names ≠ [] → others ≠ [])
    (hsame : ∀ m n, (detection n).tag = (detection m).tag ∧
      (detection m).severity = (detection n).severity) :
    Covers (namingAll names detection) (Rules.namingAll others detection) := by
  rw [namingAll_eq, namingAll_eq]
  by_cases hnames : names = []
  · rw [if_pos hnames]
    exact nil _
  · rw [if_neg hnames, if_neg (h hnames)]
    intro x hx
    obtain rfl := List.mem_singleton.mp hx
    exact ⟨_, List.mem_singleton_self _, (hsame _ _).1, Nat.le_of_eq (by rw [(hsame _ _).2])⟩

end Covers

theorem Covers.filterMap {α : Type} {l : List α} {f g : α → Option Detection}
    (h : ∀ a x, f a = some x →
      ∃ y, g a = some y ∧ y.tag = x.tag ∧ x.severity.priority ≤ y.severity.priority) :
    Covers (l.filterMap f) (l.filterMap g) := by
  intro x hx
  obtain ⟨a, ha, hfa⟩ := List.mem_filterMap.mp hx
  obtain ⟨y, hga, hxy⟩ := h a x hfa
  exact ⟨y, List.mem_filterMap.mpr ⟨a, ha, hga⟩, hxy⟩

theorem exists_mem_of_forall₂ {α : Type} {R : α → α → Prop} {P Q : α → Prop} {l r : List α}
    (h : List.Forall₂ R l r) (hPQ : ∀ a b, R a b → P a → Q b) :
    (∃ a ∈ l, P a) → ∃ b ∈ r, Q b := by
  rintro ⟨a, ha, hP⟩
  induction h with
  | nil => cases ha
  | cons hR _ ih =>
    rcases List.mem_cons.mp ha with rfl | ha
    · exact ⟨_, List.mem_cons_self, hPQ _ _ hR hP⟩
    · obtain ⟨b, hb, hQ⟩ := ih ha
      exact ⟨b, List.mem_cons_of_mem _ hb, hQ⟩

namespace Looser

variable {d e : Document} {event : Event}

theorem trigger?_cases (h : Looser d e) (event : Event) :
    (d.trigger? event = none ∧ e.trigger? event = none) ∨
      ∃ t u, d.trigger? event = some t ∧ e.trigger? event = some u ∧ LooserTrigger t u := by
  have hfind : ∀ {l r : List Trigger}, List.Forall₂ LooserTrigger l r →
      Option.Rel LooserTrigger (l.find? (·.event = event)) (r.find? (·.event = event)) := by
    intro l r hlr
    induction hlr with
    | nil => exact .none
    | cons htu _ ih =>
      rw [List.find?_cons, List.find?_cons, htu.event_eq]
      split
      · exact .some htu
      · exact ih
  have hrel := hfind h.triggers
  rw [Document.trigger?, Document.trigger?]
  revert hrel
  generalize d.triggers.find? (·.event = event) = found
  generalize e.triggers.find? (·.event = event) = left
  intro hrel
  cases hrel with
  | none => exact .inl ⟨rfl, rfl⟩
  | some htu => exact .inr ⟨_, _, rfl, rfl, htu⟩

theorem hasTrigger_eq (h : Looser d e) (event : Event) :
    e.hasTrigger event = d.hasTrigger event := by
  rw [Document.hasTrigger, Document.hasTrigger]
  obtain ⟨hd, he⟩ | ⟨t, u, hd, he, -⟩ := h.trigger?_cases event
  · rw [hd, he]
  · rw [hd, he]
    rfl

theorem exists_job (h : Looser d e) {P Q : Job → Prop}
    (hPQ : ∀ j k, LooserJob j k → P j → Q k) : (∃ j ∈ d.jobs, P j) → ∃ k ∈ e.jobs, Q k :=
  exists_mem_of_forall₂ h.jobs hPQ

theorem exists_job_before (h : Looser d e) {P Q : Job → Prop}
    (hQP : ∀ j k, LooserJob j k → Q k → P j) : (∃ k ∈ e.jobs, Q k) → ∃ j ∈ d.jobs, P j :=
  exists_mem_of_forall₂ h.jobs.flip fun k j hjk => hQP j k hjk

theorem exists_step (h : Looser d e) {P Q : Step → Prop}
    (hPQ : ∀ s t, LooserStep s t → P s → Q t) :
    (∃ j ∈ d.jobs, ∃ s ∈ j.steps, P s) → ∃ k ∈ e.jobs, ∃ t ∈ k.steps, Q t :=
  h.exists_job fun _ _ hjk => exists_mem_of_forall₂ hjk.steps hPQ

theorem exists_step_before (h : Looser d e) {P Q : Step → Prop}
    (hQP : ∀ s t, LooserStep s t → Q t → P s) :
    (∃ k ∈ e.jobs, ∃ t ∈ k.steps, Q t) → ∃ j ∈ d.jobs, ∃ s ∈ j.steps, P s :=
  h.exists_job_before fun _ _ hjk =>
    exists_mem_of_forall₂ hjk.steps.flip fun t s hst => hQP s t hst

theorem hasConcurrencyGroup (h : Looser d e) : e.hasConcurrencyGroup → d.hasConcurrencyGroup := by
  simp only [Document.hasConcurrencyGroup, Bool.or_eq_true, List.any_eq_true,
    Option.isSome_iff_ne_none]
  exact Or.imp (mt h.concurrency) (h.exists_job_before fun _ _ hjk => mt hjk.concurrency)

/-! ### Rules on triggers -/

theorem covers_ofTrigger (h : Looser d e) {has : Filters → Bool}
    (hhas : ∀ {f g}, LooserFilters f g → has g → has f) {l : List Detection} :
    Covers
      (match d.trigger? event with
      | none => []
      | some t => if has t.filters then [] else l)
      (match e.trigger? event with
      | none => []
      | some t => if has t.filters then [] else l) := by
  obtain ⟨hd, he⟩ | ⟨t, u, hd, he, htu⟩ := h.trigger?_cases event
  · rw [hd, he]
    exact .nil _
  · rw [hd, he]
    exact .ite (fun _ => .refl l) (hhas htu.filters)

theorem covers_noConcurrency (h : Looser d e) :
    Covers (Rules.noConcurrency d) (Rules.noConcurrency e) := by
  rw [Rules.noConcurrency, Rules.noConcurrency, h.hasTrigger_eq, h.hasTrigger_eq]
  refine .ite (fun _ => .refl _) ?_
  simp only [Bool.or_eq_true]
  exact Or.imp_right h.hasConcurrencyGroup

theorem covers_frequentSchedule (h : Looser d e) :
    Covers (Rules.frequentSchedule d) (Rules.frequentSchedule e) := by
  rw [Rules.frequentSchedule, Rules.frequentSchedule]
  obtain ⟨hd, he⟩ | ⟨t, u, hd, he, htu⟩ := h.trigger?_cases .schedule
  · rw [hd, he]
    exact .nil _
  · simp only [hd, he, htu.crons_eq]
    exact .refl _

/-! ### Rules on jobs -/

theorem covers_ofJobs (h : Looser d e) {offends : Job → Bool}
    (hoffends : ∀ {j k}, LooserJob j k → offends j → offends k) {describe : Job → String}
    {severity : Severity} {text : String → String} :
    Covers
      (Rules.namingAll ((d.jobs.filter offends).map describe) fun names =>
        ⟨severity, text names, none⟩)
      (Rules.namingAll ((e.jobs.filter offends).map describe) fun names =>
        ⟨severity, text names, none⟩) := by
  refine .namingAll ?_ fun _ _ => ⟨rfl, rfl⟩
  simp only [ne_eq, List.map_eq_nil_iff, List.filter_eq_nil_iff, not_forall, exists_prop, not_not]
  exact h.exists_job fun _ _ => hoffends

theorem covers_matrixNoFailFast (h : Looser d e) :
    Covers (Rules.matrixNoFailFast d) (Rules.matrixNoFailFast e) := by
  rw [Rules.matrixNoFailFast, Rules.matrixNoFailFast]
  refine h.covers_ofJobs fun hjk => ?_
  simp only [hjk.matrix_eq, Bool.and_eq_true, Option.isNone_iff_eq_none]
  exact And.imp_right hjk.failFast

theorem countsLargeMatrices (h : Looser d e) (hd : CountsLargeMatrices d) :
    CountsLargeMatrices e := by
  intro k hk m hm
  obtain ⟨j, hj, hmatrix⟩ := h.exists_job_before (P := (·.matrix = some m))
    (fun _ _ hjk hk => hjk.matrix_eq.symm.trans hk) ⟨k, hk, hm⟩
  exact hd j hj m hmatrix

/-- Jobs keep their matrices, so that the rule crashes at both documents or at none. -/
theorem covers_largeMatrix (h : Looser d e) {l : List Detection}
    (hl : Rules.largeMatrix d = .detected l) :
    ∃ r, Rules.largeMatrix e = .detected r ∧ Covers l r := by
  by_cases hcounts : CountsLargeMatrices d
  · rw [Row.largeMatrix_of_counts hcounts] at hl
    obtain rfl := Verdict.detected.inj hl
    refine ⟨_, Row.largeMatrix_of_counts (h.countsLargeMatrices hcounts), h.covers_ofJobs ?_⟩
    intro j k hjk
    rw [Rules.hasLargeMatrix, Rules.hasLargeMatrix, hjk.matrix_eq]
    exact id
  · rw [Row.largeMatrix_of_not_counts hcounts] at hl
    cases hl

theorem covers_noTimeout (h : Looser d e) :
    Covers (Rules.noTimeout d) (Rules.noTimeout e) := by
  rw [Rules.noTimeout, Rules.noTimeout]
  refine h.covers_ofJobs fun hjk => ?_
  simp only [Job.callsWorkflow, Job.hasTimeout, hjk.uses_eq, Bool.and_eq_true, Bool.not_eq_true',
    Option.isSome_eq_false_iff, Option.isNone_iff_eq_none]
  exact And.imp_right hjk.timeout

/-! ### Rules on steps -/

theorem covers_ofSteps (offends : Step → Bool) {text : String → String}
    (h : (∃ j ∈ d.jobs, ∃ s ∈ j.steps, offends s) → ∃ k ∈ e.jobs, ∃ t ∈ k.steps, offends t) :
    Covers
      (Rules.namingAll (sortedNames ((d.steps.filter fun js => offends js.2).map (·.1.id)))
        fun names => .info (text names))
      (Rules.namingAll (sortedNames ((e.steps.filter fun js => offends js.2).map (·.1.id)))
        fun names => .info (text names)) := by
  refine .namingAll ?_ fun _ _ => ⟨rfl, rfl⟩
  rwa [Row.sortedNames_filter_steps_ne_nil_iff, Row.sortedNames_filter_steps_ne_nil_iff]

theorem covers_artifactNoRetention (h : Looser d e) :
    Covers (Rules.artifactNoRetention d) (Rules.artifactNoRetention e) := by
  refine .ite (fun _ => ?_) h.retention
  refine covers_ofSteps (·.actionName = some "actions/upload-artifact") (h.exists_step ?_)
  intro s t hst
  simp only [Step.actionName, hst.uses_eq]
  exact id

theorem covers_oldCheckout (h : Looser d e) :
    Covers (Rules.oldCheckout d) (Rules.oldCheckout e) := by
  have hnames : ∀ d : Document,
      sortedNames ((d.steps.filterMap fun js => js.2.uses).filter Rules.isOldCheckout) ≠ [] ↔
        ∃ j ∈ d.jobs, ∃ s ∈ j.steps, ∃ uses, s.uses = some uses ∧ Rules.isOldCheckout uses := by
    intro d
    simp only [ne_eq, List.eq_nil_iff_forall_not_mem, mem_sortedNames, List.mem_filter,
      List.mem_filterMap, Prod.exists, Row.mem_steps]
    grind
  rw [Rules.oldCheckout, Rules.oldCheckout]
  refine .namingAll ?_ fun _ _ => ⟨rfl, rfl⟩
  rw [hnames, hnames]
  refine h.exists_step fun s t hst => ?_
  rw [hst.uses_eq]
  exact id

theorem covers_noCache (h : Looser d e) : Covers (Rules.noCache d) (Rules.noCache e) := by
  refine .ite (fun hnone => covers_ofSteps Rules.installsPackages ?_) ?_
  · have hnone : ¬∃ j ∈ d.jobs, ∃ s ∈ j.steps, Rules.providesCache s :=
      mt Row.any_steps_iff.mpr (Bool.eq_false_iff.mp hnone)
    rintro ⟨j, hj, s, hs, hinstall⟩
    have hfree : ∃ j ∈ d.jobs, ∃ s ∈ j.steps,
        Rules.installsPackages s ∧ ¬Rules.providesCache s :=
      ⟨j, hj, s, hs, hinstall, fun hcache => hnone ⟨j, hj, s, hs, hcache⟩⟩
    exact h.exists_step (fun s t hst hs => (hst.install hs.1).resolve_right hs.2) hfree
  · rw [Row.any_steps_iff, Row.any_steps_iff]
    exact h.exists_step_before fun _ _ hst => hst.cache

/-! ### Expensive runners -/

def severityOn (onAllBranches : Bool) : Severity := if onAllBranches then .warning else .info

theorem priority_severityOn_le {b c : Bool} (h : b → c) :
    (severityOn b).priority ≤ (severityOn c).priority := by
  revert b c
  decide

theorem expensiveRunnerOf_cases (d : Document) (f : RunnerFamily) :
    (Rules.expensiveRunnerOf d f = none ∧ ¬∃ j ∈ d.jobs, Rules.runsOnFamily j f) ∨
      ∃ x, Rules.expensiveRunnerOf d f = some x ∧ (∃ j ∈ d.jobs, Rules.runsOnFamily j f) ∧
        x.tag = some f.tag ∧ x.severity =
          severityOn (Rules.runsOnAllBranches d (d.jobs.filter (Rules.runsOnFamily · f))) := by
  have hmem : ∀ j, j ∈ d.jobs.filter (Rules.runsOnFamily · f) ↔
      j ∈ d.jobs ∧ Rules.runsOnFamily j f := fun _ => List.mem_filter
  rw [Rules.expensiveRunnerOf]
  cases hjobs : d.jobs.filter (Rules.runsOnFamily · f) with
  | nil =>
    rw [hjobs] at hmem
    refine .inl ⟨rfl, ?_⟩
    rintro ⟨j, hj⟩
    exact absurd ((hmem j).mpr hj) List.not_mem_nil
  | cons j rest =>
    rw [hjobs] at hmem
    refine .inr ⟨_, rfl, ⟨j, (hmem j).mp List.mem_cons_self⟩, rfl, ?_⟩
    cases Rules.runsOnAllBranches d (j :: rest) <;> rfl

theorem runsOnAllBranches (h : Looser d e) (f : RunnerFamily) :
    Rules.runsOnAllBranches d (d.jobs.filter (Rules.runsOnFamily · f)) →
      Rules.runsOnAllBranches e (e.jobs.filter (Rules.runsOnFamily · f)) := by
  simp only [Rules.runsOnAllBranches, Bool.or_eq_true, Bool.and_eq_true, h.hasTrigger_eq,
    List.any_eq_true, List.mem_filter, and_assoc]
  refine Or.imp ?_ (And.imp_right (h.exists_job fun j k hjk => ?_))
  · obtain ⟨hd, he⟩ | ⟨t, u, hd, he, htu⟩ := h.trigger?_cases .push
    · rw [hd, he]
      exact id
    · simp only [hd, he, Bool.not_eq_true', ← Bool.not_eq_true]
      exact mt htu.filters.protects
  · simp only [Bool.not_eq_true', ← Bool.not_eq_true]
    exact And.imp (hjk.runner f) (mt hjk.condition)

theorem covers_expensiveRunner (h : Looser d e) :
    Covers (Rules.expensiveRunner d) (Rules.expensiveRunner e) := by
  refine .filterMap fun f x hx => ?_
  obtain ⟨hd, -⟩ | ⟨x', hd, hjobs, htag, hseverity⟩ := expensiveRunnerOf_cases d f
  · rw [hd] at hx
    cases hx
  · rw [hd] at hx
    obtain rfl := Option.some.inj hx
    have hjobs := h.exists_job (fun _ _ hjk => hjk.runner f) hjobs
    obtain ⟨-, hnone⟩ | ⟨y, he, -, htag', hseverity'⟩ := expensiveRunnerOf_cases e f
    · exact absurd hjobs hnone
    · refine ⟨y, he, htag'.trans htag.symm, ?_⟩
      rw [hseverity, hseverity']
      exact priority_severityOn_le (h.runsOnAllBranches f)

end Looser

/-! ### Evaluations -/

def FindingsCover (l r : List Finding) : Prop :=
  ∀ x ∈ l, ∃ y ∈ r, y.rule = x.rule ∧ y.tag = x.tag ∧ x.severity.priority ≤ y.severity.priority

namespace FindingsCover

variable {l r l' r' : List Finding}

theorem refl (l : List Finding) : FindingsCover l l :=
  fun x hx => ⟨x, hx, rfl, rfl, Nat.le_refl _⟩

theorem trans {m : List Finding} (h : FindingsCover l m) (h' : FindingsCover m r) :
    FindingsCover l r := by
  intro x hx
  obtain ⟨y, hy, hrule, htag, hle⟩ := h x hx
  obtain ⟨z, hz, hrule', htag', hle'⟩ := h' y hy
  exact ⟨z, hz, hrule'.trans hrule, htag'.trans htag, Nat.le_trans hle hle'⟩

theorem append (h : FindingsCover l r) (h' : FindingsCover l' r') :
    FindingsCover (l ++ l') (r ++ r') := by
  intro x hx
  rcases List.mem_append.mp hx with hx | hx
  · obtain ⟨y, hy, hxy⟩ := h x hx
    exact ⟨y, List.mem_append_left _ hy, hxy⟩
  · obtain ⟨y, hy, hxy⟩ := h' x hx
    exact ⟨y, List.mem_append_right _ hy, hxy⟩

theorem inFile {detections others : List Detection} (h : Covers detections others)
    (rule file : String) :
    FindingsCover (detections.map (·.inFile rule file)) (others.map (·.inFile rule file)) := by
  intro x hx
  obtain ⟨detection, hmem, rfl⟩ := List.mem_map.mp hx
  obtain ⟨other, hother, htag, hle⟩ := h detection hmem
  exact ⟨_, List.mem_map_of_mem hother, rfl, htag, hle⟩

theorem evaluate_cons_verdict {d e : Document} {r : Rule} {file : String} {rules : List Rule}
    (hrule : ∀ detections, r.apply d = .detected detections →
      ∃ others, r.apply e = .detected others ∧ Covers detections others)
    (hrest : FindingsCover ((Engine.mk rules).evaluate d file).findings
      ((Engine.mk rules).evaluate e file).findings) :
    FindingsCover ((Engine.mk (r :: rules)).evaluate d file).findings
      ((Engine.mk (r :: rules)).evaluate e file).findings := by
  rw [Engine.evaluate_cons, Engine.evaluate_cons, r.evaluate_eq, r.evaluate_eq]
  refine append ?_ hrest
  cases hverdict : r.apply d with
  | detected detections =>
    obtain ⟨others, hothers, hcovers⟩ := hrule detections hverdict
    rw [r.findingsIn_of_detected d file hverdict, r.findingsIn_of_detected e file hothers]
    exact inFile hcovers r.id file
  | refused | crashed =>
    simp only [Rule.findingsIn, hverdict]
    intro x hx
    cases hx

theorem evaluate_cons {d e : Document} {id summary file : String}
    {detect : Document → List Detection} {rules : List Rule}
    (hrule : Covers (detect d) (detect e))
    (hrest : FindingsCover ((Engine.mk rules).evaluate d file).findings
      ((Engine.mk rules).evaluate e file).findings) :
    FindingsCover ((Engine.mk (.ofDetections id summary detect :: rules)).evaluate d file).findings
      ((Engine.mk (.ofDetections id summary detect :: rules)).evaluate e file).findings := by
  refine evaluate_cons_verdict (fun detections hdetections => ⟨_, rfl, ?_⟩) hrest
  rwa [← Verdict.detected.inj hdetections]

end FindingsCover

theorem findingsCover_builtin {d e : Document} (h : Looser d e) (file : String) :
    FindingsCover (Engine.builtin.evaluate d file).findings
      (Engine.builtin.evaluate e file).findings := by
  refine .evaluate_cons ?_ (.evaluate_cons ?_ (.evaluate_cons ?_ (.evaluate_cons_verdict ?_
    (.evaluate_cons ?_ (.evaluate_cons ?_ (.evaluate_cons ?_ (.evaluate_cons ?_
      (.evaluate_cons ?_ (.evaluate_cons ?_ (.evaluate_cons ?_ (.refl _)))))))))))
  · exact h.covers_ofTrigger LooserFilters.restricts
  · exact h.covers_noConcurrency
  · exact h.covers_matrixNoFailFast
  · exact fun _ => h.covers_largeMatrix
  · exact h.covers_frequentSchedule
  · exact h.covers_noTimeout
  · exact h.covers_artifactNoRetention
  · exact h.covers_oldCheckout
  · exact h.covers_noCache
  · exact h.covers_ofTrigger LooserFilters.types
  · exact h.covers_expensiveRunner

/-- Taking restrictions out of a document neither hides a finding nor makes it less severe. -/
theorem exists_finding_of_relaxed {d e : Document} (h : Relation.ReflTransGen Relaxes d e)
    (file : String) :
    ∀ x ∈ (Engine.builtin.evaluate d file).findings,
      ∃ y ∈ (Engine.builtin.evaluate e file).findings,
        y.rule = x.rule ∧ y.tag = x.tag ∧ x.severity.priority ≤ y.severity.priority := by
  change FindingsCover _ _
  induction h with
  | refl => exact .refl _
  | tail _ hstep ih => exact ih.trans (findingsCover_builtin hstep.looser file)

def guardedDocument : Document :=
  { Document.empty with
    triggers := [⟨.push, { branches := some ["main"] }, []⟩]
    concurrency := some ⟨"ci", none⟩
    jobs := [⟨"build", none, ["macos-14"], none, none, none, none, none, none, []⟩] }

def unguardedDocument : Document :=
  { guardedDocument with
    triggers := [⟨.push, { branches := some [] }, []⟩]
    concurrency := none }

theorem exists_finding_of_relaxed_guardedDocument :
    Relation.ReflTransGen Relaxes guardedDocument unguardedDocument ∧
      (Engine.builtin.evaluate guardedDocument "ci.yml").findings.map (fun x =>
        (x.rule, x.severity)) = [("NO_TIMEOUT", .info), ("EXPENSIVE_RUNNER", .info)] ∧
      (Engine.builtin.evaluate unguardedDocument "ci.yml").findings.map (fun x =>
        (x.rule, x.severity)) =
          [("NO_CONCURRENCY", .info), ("NO_TIMEOUT", .info), ("EXPENSIVE_RUNNER", .warning)] ∧
      ∀ x ∈ (Engine.builtin.evaluate guardedDocument "ci.yml").findings,
        ∃ y ∈ (Engine.builtin.evaluate unguardedDocument "ci.yml").findings,
          y.rule = x.rule ∧ y.tag = x.tag ∧ x.severity.priority ≤ y.severity.priority := by
  have hfilters : FiltersEdit { branches := some ["main"] } { branches := some [] } :=
    @FiltersEdit.branch _ [] [] "main" rfl
  have htrigger : Relaxes guardedDocument
      { guardedDocument with triggers := [⟨.push, { branches := some [] }, []⟩] } :=
    @Relaxes.trigger _ [] [] ⟨.push, { branches := some ["main"] }, []⟩ _ rfl hfilters
  have h : Relation.ReflTransGen Relaxes guardedDocument unguardedDocument :=
    (Relation.ReflTransGen.single htrigger).tail (.concurrency _)
  exact ⟨h, by cbv, by cbv, exists_finding_of_relaxed h "ci.yml"⟩

end WorkflowAudit.Lint
